import LoxLang.CommandLine
import LoxLang.FileTree

/-!
The program: it runs the file that its arguments name, or else converses on standard input.
-/

set_option autoImplicit false
set_option relaxedAutoImplicit false

namespace LoxLang.Main

open CommandLine

/-- The variables of the environment that the settings look at. -/
def environment : IO (List (String × String)) := do
  let names := [Settings.levelVariable, Settings.noColorVariable]
  let found ← names.mapM fun name => do
    return (← IO.getEnv name).map (name, ·)
  return found.filterMap id

/-- The fault of a number and a text that the operating system gave, the number perhaps negated. -/
def openFault (code : UInt32) (text : String) : OpenFault :=
  ⟨(min code (-code)).toNat, text⟩

def faultOf : IO.Error → OpenFault
  | .interrupted _ code text | .noFileOrDirectory _ code text => openFault code text
  | .alreadyExists _ code text | .invalidArgument _ code text | .permissionDenied _ code text
  | .resourceExhausted _ code text | .inappropriateType _ code text
  | .noSuchThing _ code text => openFault code text
  | .otherError code text | .resourceBusy code text | .resourceVanished code text
  | .unsupportedOperation code text | .hardwareFault code text | .unsatisfiedConstraints code text
  | .illegalOperation code text | .protocolError code text | .timeExpired code text =>
    openFault code text
  | .unexpectedEof => ⟨0, "end of file"⟩
  | .userError text => ⟨0, text⟩

def readFile (path : String) : IO (Except Mishap String) := do
  if path.toList.contains '\x00' then
    return .error .nullInPath
  try
    return fileText (← IO.FS.readBinFile path).toList
  catch e =>
    return .error (.cannotOpen path (faultOf e))

/-- The control sequence that sets a display property. -/
def escapeSequence (code : Nat) : String :=
  "\x1b\x5b" ++ toString code ++ "m"

/-- The numbers of the display properties that reports ask for. -/
def displayCodes : List (String × Nat) :=
  [("red", 31), ("bold", 1)]

/-- Text between the control sequences of a terminal, of which the last one is set first. -/
def terminalPainter : Text.Painter := fun color attributes text ↦
  let codes := (color.toList ++ attributes).filterMap (List.lookup · displayCodes)
  codes.foldl (fun s code ↦ escapeSequence code ++ s) text ++ escapeSequence 0

/-- Only what is shown on a terminal is painted. -/
def painter : IO Text.Painter := do
  return if ← (← IO.getStdout).isTty then terminalPainter else .plain

/-- Writes what an answer holds and returns the exit code. A failure that no report settles ends the
program with a code of its own. -/
def give (a : Answer) : IO UInt32 := do
  IO.print a.out
  IO.eprint a.err
  match a.escaped with
  | none => return a.code.toUInt32
  | some f =>
    IO.eprintln f.message
    return 1

partial def converse (settings : Settings) (c : Console) : IO UInt32 := do
  IO.print c.prompt
  (← IO.getStdout).flush
  let line ← (← IO.getStdin).getLine
  let t := turn settings (if line.isEmpty then endWord else line) c
  IO.print t.out
  IO.eprint t.err
  match t.answer? settings with
  | some a => give a
  | none => converse settings t.console

end LoxLang.Main

open LoxLang in
def main (arguments : List String) : IO UInt32 := do
  match CommandLine.plan arguments (← Main.environment) with
  | .error a => Main.give a
  | .ok (settings, some path) =>
    let text ← Main.readFile path
    Main.give (CommandLine.runFile settings (← Main.painter) path fun _ => text)
  | .ok (settings, none) =>
    IO.print Console.welcome
    Main.converse settings (CommandLine.openConsole settings (← Main.painter))
