import LoxLang.Arguments
import LoxLang.Console

/-!
The command line: what a call of the program writes, and the code with which it ends.

With a file, the file is run and a failure ends the program. Without one, standard input is fed to a
console line by line.
-/

set_option autoImplicit false
set_option relaxedAutoImplicit false

namespace LoxLang.CommandLine

/-- The exit code for a file that cannot be opened. -/
def noInputExit : Nat := 66

/-- How a call ends. A mishap that no report settles leaves the program as it is. -/
structure Answer where
  code : Nat := 0
  out : String := ""
  err : String := ""
  escaped : Option Failure := none

/-- What the arguments and the environment ask for, or an answer that they settle at once. -/
def plan (arguments : List String) (environment : List (String × String)) :
    Except Answer (Settings × Option String) :=
  match Arguments.read arguments with
  | .error .help => .error { out := Arguments.helpText }
  | .error (.fault f) => .error { code := Arguments.Fault.exitCode, err := f.report }
  | .ok (options, file) =>
    match Settings.of options environment with
    | .ok settings => .ok (settings, file)
    | .error m =>
      .error { code := Arguments.Fault.exitCode, err := (Arguments.Fault.rejected m.message).report }

/-- An answer after more was written. -/
def Answer.after (out err : String) (a : Answer) : Answer :=
  { a with out := out ++ a.out, err := err ++ a.err }

/-- The answer when the work has ended, with a failure or none, and has left this reporter. -/
def finish (settings : Settings) (failure : Option Failure) (r : Reporter) : Answer :=
  match failure with
  | none => { err := r.errorText settings.logLevel }
  | some f =>
    let (verdict, r) : Verdict Empty × Reporter := r.settle (.failure f)
    let err := r.errorText settings.logLevel
    match verdict with
    | .ends code => { code, err }
    | .passes (.failure f) => { err, escaped := some f }
    | _ => { err }

/-! ### A file -/

def openReport (r : Reporter) (path : String) (fault : OpenFault) : String :=
  r.alert "error: " ++ "'" ++ path ++ "' could not be opened: " ++ fault.text ++ "\n"

/-- Runs the file at a path. -/
def runFile (settings : Settings) (painter : Text.Painter) (path : String)
    (readFile : String → Except Mishap String) : Answer :=
  let reporter := Reporter.new true settings.colored painter
  match Session.start reporter path false settings.showsTree readFile with
  | .error m =>
    let r := Session.prepare path false reporter
    match m with
    | .cannotOpen _ fault =>
      { code := noInputExit, err := (r.write (openReport r path fault)).errorText settings.logLevel }
    | m => finish settings (some (.mishap m)) r
  | .ok session =>
    match (Session.run session.source 1).run session with
    | .ok _ session => (finish settings none session.reporter).after session.output ""
    | .error f session => (finish settings (some f) session.reporter).after session.output ""

/-! ### Standard input -/

/-- A console before its first line. Typed input has no file that could fail. -/
def openConsole (settings : Settings) (painter : Text.Painter) : Console :=
  let reporter := Reporter.new true settings.colored painter
  Console.new (Session.begin reporter Session.inputPath true settings.showsTree "")
    settings.prompt.shown

/-- What one line brings forth, and the console with all of it handed over. -/
structure Turn where
  out : String
  err : String
  outcome : Console.Outcome
  console : Console

def turn (settings : Settings) (line : String) (c : Console) : Turn :=
  let (reply, after) := c.feed line
  { out := after.session.output ++ reply.shown
    err := after.session.reporter.errorText settings.logLevel
    outcome := reply.outcome
    console := { after with session := after.session.clear } }

/-- The answer, if a turn was the last one. -/
def Turn.answer? (settings : Settings) (t : Turn) : Option Answer :=
  match t.outcome with
  | .goesOn => none
  | .stops => some {}
  | .exits code => some { code }
  | .fails f => some (finish settings (some f) t.console.session.reporter)

/-- The word that stands for the end of the input. -/
def endWord : String := "EOF"

/-- Feeds lines to a console, each after its prompt, and at last the end of the input. -/
def converse (settings : Settings) (c : Console) : List String → Answer
  | [] =>
    let t := turn settings endWord c
    ((t.answer? settings).getD {}).after (c.prompt ++ t.out) t.err
  | line :: lines =>
    let t := turn settings line c
    ((t.answer? settings).getD (converse settings t.console lines)).after (c.prompt ++ t.out) t.err

/-- The lines of standard input; a newline at the end begins no line. -/
def inputLines (input : String) : List String :=
  let lines := ((Text.unifyBreaks input.toList).splitOn '\n').map String.ofList
  if lines.getLast? = some "" then lines.dropLast else lines

/-- One call of the program. -/
def run (painter : Text.Painter) (arguments : List String) (environment : List (String × String))
    (input : String) (readFile : String → Except Mishap String) : Answer :=
  match plan arguments environment with
  | .error answer => answer
  | .ok (settings, some path) => runFile settings painter path readFile
  | .ok (settings, none) =>
    (converse settings (openConsole settings painter) (inputLines input)).after Console.welcome ""

end LoxLang.CommandLine
