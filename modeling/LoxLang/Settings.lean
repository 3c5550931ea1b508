import LoxLang.Failure
import LoxLang.Console
import LoxLang.Text.Uppercase

/-!
Settings, from the options of the command line and from the variables of the environment.
-/

set_option autoImplicit false
set_option relaxedAutoImplicit false

namespace LoxLang

/-- The prompt of a console. One without a text is still shown, as an empty pair of brackets. -/
inductive Prompt
  | text (s : String)
  | void
  deriving DecidableEq, Repr

def Prompt.shown : Prompt → String
  | text s => s
  | void => "[]"

/-- What the options of the command line say. -/
structure Options where
  logLevel : Option String := none
  noColor : Bool := false
  showsTree : Bool := false
  prompt : Option Prompt := none
  deriving DecidableEq, Repr

structure Settings where
  logLevel : Nat
  colored : Bool
  showsTree : Bool
  prompt : Prompt
  deriving DecidableEq, Repr

namespace Settings

def levels : List (String × Nat) :=
  [("CRITICAL", 50), ("FATAL", 50), ("ERROR", 40), ("WARNING", 30), ("WARN", 30), ("INFO", 20),
    ("DEBUG", 10), ("NOTSET", 0)]

def defaultLevel : String := "WARNING"

/-- The variable that names the level if no option does. -/
def levelVariable : String := "LOX_LOG"

/-- The variable that turns colors off, whatever its value. -/
def noColorVariable : String := "NO_COLOR"

/-- The first name of a level that is not empty, in upper case. -/
def levelName (options : Options) (environment : List (String × String)) : String :=
  let names := [options.logLevel, environment.lookup levelVariable].filterMap id
  Text.toUpper ((names.find? (· != "")).getD defaultLevel)

def of (options : Options) (environment : List (String × String)) : Except Mishap Settings :=
  let name := levelName options environment
  match levels.lookup name with
  | none => .error (.unknownLevel name)
  | some logLevel =>
    .ok {
      logLevel
      colored := !options.noColor && (environment.lookup noColorVariable).isNone
      showsTree := options.showsTree
      prompt := options.prompt.getD (.text Console.defaultPrompt) }

end Settings

end LoxLang
