import LoxLang.Evaluation
import LoxLang.Reporter
import LoxLang.Text.Blank
import LoxLang.Text.Lines

/-!
Sessions: source texts that are run one after another over the same global scope.

A run that ends with a diagnostic leaves the source line at fault with the reporter, and a run that
completes leaves none.
-/

set_option autoImplicit false
set_option relaxedAutoImplicit false

namespace LoxLang

/-- `path` names the texts of the session in reports, and `source` is the text of its file. With
`showsTree`, a run prints the prefix form of its text instead of executing it. -/
structure Session where
  reporter : Reporter
  path : String
  showsTree : Bool
  source : String
  machine : Machine

namespace Session

/-- The path that stands for typed input. -/
def inputPath : String := "<in>"

/-- The reporter of a new session. Failures of an interactive session are never fatal. -/
def prepare (path : String) (interactive : Bool) (r : Reporter) : Reporter :=
  let r := r.mention path
  let r := { r with fatal := r.fatal && !interactive }
  if path = inputPath then r else r.note (.loading path)

/-- The text of the session's file. Typed input has none, and no file goes by its path. -/
def load (path : String) (interactive : Bool) (readFile : String → Except Mishap String) :
    Except Mishap String :=
  if path ≠ inputPath then readFile path
  else if interactive then .ok ""
  else .error (.reservedPath inputPath)

/-- A session before its first run. -/
def begin (r : Reporter) (path : String) (interactive showsTree : Bool) (source : String) : Session :=
  ⟨prepare path interactive r, path, showsTree, source, .ofScopes default⟩

def start (r : Reporter) (path : String) (interactive showsTree : Bool)
    (readFile : String → Except Mishap String) : Except Mishap Session := do
  .ok (begin r path interactive showsTree (← load path interactive readFile))

/-- The work of one run. -/
def work (showsTree : Bool) (source : String) : Evaluation Unit :=
  if showsTree then do
    let text ← dump source
    if text ≠ "" then
      Evaluation.printLine text
  else
    LoxLang.run source

/-- The line of a text that a diagnostic speaks of, where the text begins on line `firstLine`. -/
def lineAt? (source : String) (firstLine : Int) (d : Diagnostic) : Option SourceLine :=
  if 0 < d.line then
    (Text.lines source)[d.line.toNat - 1]?.map fun line =>
      ⟨Text.strip line, firstLine + d.line - 1⟩
  else none

/-- The session after a run, whose notices go to the error stream. -/
def resume (m : Machine) (s : Session) : Session :=
  { s with
    machine := { m with notices := [] }
    reporter := { s.reporter with written := m.notices.map .notice ++ s.reporter.written } }

def withReporter (f : Reporter → Reporter) (s : Session) : Session :=
  { s with reporter := f s.reporter }

/-- Runs a text that begins on line `firstLine`. -/
def run (source : String) (firstLine : Int) : EStateM Failure Session Unit := do
  let s ← get
  match (work s.showsTree source).run s.machine with
  | .ok _ m => set ((s.resume m).withReporter (Reporter.mention s.path))
  | .error (.diagnostic d) m =>
    let s := s.resume m
    let s := match lineAt? source firstLine d with
      | some line => s.withReporter (Reporter.pointTo s.path line)
      | none => s
    set (s.withReporter (Reporter.note (.failed s.path d)))
    throw (.diagnostic d)
  | .error (.mishap e) m =>
    set (s.resume m)
    throw (.mishap e)

/-- The text that the session printed. -/
def output (s : Session) : String :=
  s.machine.output

/-- The session with nothing printed or written yet. -/
def clear (s : Session) : Session :=
  { s with
    machine := { s.machine with printed := [] }
    reporter := { s.reporter with written := [] } }

end Session

end LoxLang
