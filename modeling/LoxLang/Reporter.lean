import LoxLang.Failure
import LoxLang.Notice
import LoxLang.Text.Paint

/-!
Reporting failures on the error stream.

A reporter knows the files that are being run and, for each, the source line at fault. A report shows
those lines and then the failure. A fatal reporter ends the program after its first report; any other
one forgets the lines and goes on.
-/

set_option autoImplicit false
set_option relaxedAutoImplicit false

namespace LoxLang

/-- A piece of what is written on the error stream: text, or a notice for those who listen. -/
inductive Entry
  | text (s : String)
  | notice (n : Notice)
  deriving DecidableEq, Repr

/-- The text of a piece, where notices below `level` are not shown. -/
def Entry.render (level : Nat) : Entry → String
  | text s => s
  | notice n => if level ≤ n.level then n.line else ""

/-- A source line without the blanks around it, and its number. -/
structure SourceLine where
  text : String
  number : Int
  deriving DecidableEq, Repr

/-- The files stand in the order in which they were first mentioned. What was reported and written is
kept last first. -/
structure Reporter where
  fatal : Bool
  colored : Bool
  painter : Text.Painter
  traceback : List (String × Option SourceLine)
  reported : List String
  written : List Entry

/-- What can be reported: a diagnostic, or something else that has a text but no exit code. -/
inductive Subject
  | diagnostic (d : Diagnostic)
  | other (family : String) (text : String)
  deriving DecidableEq, Repr

def Subject.text : Subject → String
  | diagnostic d => d.message
  | other _ text => text

/-- What can leave a block of work early. -/
inductive Signal (Code : Type)
  | failure (f : Failure)
  | interrupt
  | exit (code : Code)

/-- What becomes of a signal: it is settled, ends the program with a code, or goes on. -/
inductive Verdict (Code : Type)
  | settled
  | ends (code : Nat)
  | passes (signal : Signal Code)

namespace Reporter

def new (fatal colored : Bool) (painter : Text.Painter) : Reporter :=
  ⟨fatal, colored, painter, [], [], []⟩

/-- The exit code of a failure that is not a diagnostic. -/
def mishapExit : Nat := 70

def interruptExit : Nat := 130

/-- Sets the line of a file, which is mentioned last if it was not mentioned before. -/
def place (path : String) (line : Option SourceLine) :
    List (String × Option SourceLine) → List (String × Option SourceLine)
  | [] => [(path, line)]
  | (p, l) :: rest => if p = path then (p, line) :: rest else (p, l) :: place path line rest

def setLine (path : String) (line : Option SourceLine) (r : Reporter) : Reporter :=
  { r with traceback := place path line r.traceback }

/-- Mentions a file, of which no line is at fault. -/
def mention (path : String) (r : Reporter) : Reporter :=
  r.setLine path none

/-- Mentions a file and its line at fault. -/
def pointTo (path : String) (line : SourceLine) (r : Reporter) : Reporter :=
  r.setLine path (some line)

def note (n : Notice) (r : Reporter) : Reporter :=
  { r with written := .notice n :: r.written }

def write (s : String) (r : Reporter) : Reporter :=
  { r with written := .text s :: r.written }

/-- Text in color, if the reporter has colors at all. -/
def style (r : Reporter) : Text.Painter :=
  r.painter.when r.colored

def alert (r : Reporter) (text : String) : String :=
  r.style (some "red") ["bold"] text

/-- The lines of a report that show the source line of a file; an empty line is not shown. -/
def sourceText (r : Reporter) : String × Option SourceLine → String
  | (_, none) => ""
  | (path, some line) =>
    if line.text = "" then ""
    else
      r.style none ["bold"]
          ("  File '" ++ path ++ "', line " ++ toString line.number ++ ":\n") ++
        "    " ++ line.text ++ "\n"

def reportText (r : Reporter) (text : String) (isMishap : Bool) : String :=
  String.join (r.traceback.map r.sourceText) ++
    (if isMishap then r.alert "[internal] " else "") ++ r.alert "error: " ++ text ++ "\n"

def forgetLines (r : Reporter) : Reporter :=
  { r with traceback := r.traceback.map fun entry => (entry.1, none) }

/-- Writes one report. The lines stay known if this is the last report of the program. -/
def report (text : String) (isMishap : Bool) (r : Reporter) : Reporter :=
  let r := { r.write (r.reportText text isMishap) with reported := text :: r.reported }
  if r.fatal then r else r.forgetLines

/-- Reports a subject and, if that is fatal, ends the program. Only a diagnostic and a mishap have an
exit code. -/
def conclude {Code : Type} (subject : Subject) (isMishap : Bool) (r : Reporter) :
    Verdict Code × Reporter :=
  let after := r.report subject.text isMishap
  let verdict :=
    if !r.fatal then .settled
    else if isMishap then .ends mishapExit
    else
      match subject with
      | .diagnostic d => .ends d.exitCode
      | .other family _ => .passes (.failure (.mishap (.noExitCode family)))
  (verdict, after)

/-- Settles a signal that left a block of work. Exits go on, and so does a mishap after its report
unless that was fatal. -/
def settle {Code : Type} (signal : Signal Code) (r : Reporter) : Verdict Code × Reporter :=
  match signal with
  | .exit code => (.passes (.exit code), r)
  | .interrupt =>
    (if r.fatal then .ends interruptExit else .settled,
      r.write (r.alert "keyboard interrupt" ++ "\n"))
  | .failure (.diagnostic d) => (r.note (.reporting d)).conclude (.diagnostic d) false
  | .failure (.mishap m) =>
    let after := (r.note .reportingMishap).report ("unknown error: '" ++ m.summary ++ "'") true
    (if r.fatal then .ends mishapExit else .passes (.failure (.mishap m)), after)

/-- The text on the error stream, with the notices of `level` and above. -/
def errorText (r : Reporter) (level : Nat) : String :=
  String.join (r.written.reverse.map (Entry.render level))

end Reporter

end LoxLang
