import LoxLang.Diagnostic
import LoxLang.Text.Utf8

/-!
Failures: diagnostics of the program that is run, and mishaps, which are no fault of its text.
-/

set_option autoImplicit false
set_option relaxedAutoImplicit false

namespace LoxLang

/-- Why a file cannot be opened: the number and the text by which the operating system knows it. -/
structure OpenFault where
  code : Nat
  text : String
  deriving DecidableEq, Repr

namespace OpenFault

def noSuchFile : OpenFault := ⟨2, "No such file or directory"⟩

def notDirectory : OpenFault := ⟨20, "Not a directory"⟩

def isDirectory : OpenFault := ⟨21, "Is a directory"⟩

def nameTooLong : OpenFault := ⟨36, "File name too long"⟩

/-- The numbers of the operating system that have a class of their own. -/
def classes : List (Nat × String) :=
  [(1, "PermissionError"), (2, "FileNotFoundError"), (3, "ProcessLookupError"),
    (4, "InterruptedError"), (10, "ChildProcessError"), (11, "BlockingIOError"),
    (13, "PermissionError"), (17, "FileExistsError"), (20, "NotADirectoryError"),
    (21, "IsADirectoryError"), (32, "BrokenPipeError"), (103, "ConnectionAbortedError"),
    (104, "ConnectionResetError"), (108, "BrokenPipeError"), (110, "TimeoutError"),
    (111, "ConnectionRefusedError"), (114, "BlockingIOError"), (115, "BlockingIOError")]

def label (fault : OpenFault) : String :=
  (classes.lookup fault.code).getD "OSError"

end OpenFault

/-- The kinds of mishap. What is none of the interpreter's own goes by the name of its class. -/
inductive Mishap.Category
  | badType
  | badIndex
  | badValue
  | badAttribute
  | badEncoding
  | cannotOpen (fault : OpenFault)
  | other (name : String)
  deriving DecidableEq, Repr

inductive Mishap
  /-- A reading position beyond the last token. -/
  | tokensExhausted
  /-- A reading position beyond the last character. -/
  | textExhausted
  | cannotEvaluate (node : String)
  | cannotExecute (node : String)
  | cannotPrint (node : String)
  /-- A whole number with more digits than are written. -/
  | integerTooLong
  | reservedPath (path : String)
  | unknownLevel (name : String)
  | cannotOpen (path : String) (fault : OpenFault)
  /-- A path that holds a null character. -/
  | nullInPath
  | badEncoding (fault : Text.Utf8.Fault)
  /-- A report that is to end the program, of something without an exit code. -/
  | noExitCode (family : String)
  | other (category : Mishap.Category) (text : String)
  deriving DecidableEq, Repr

namespace Mishap

def Category.label : Category → String
  | badType => "TypeError"
  | badIndex => "IndexError"
  | badValue => "ValueError"
  | badAttribute => "AttributeError"
  | badEncoding => "UnicodeDecodeError"
  | cannotOpen fault => fault.label
  | other name => name

def category : Mishap → Category
  | tokensExhausted => .badIndex
  | textExhausted => .badIndex
  | cannotEvaluate _ => .badType
  | cannotExecute _ => .badType
  | cannotPrint _ => .badType
  | integerTooLong => .badValue
  | reservedPath _ => .badValue
  | unknownLevel _ => .badValue
  | cannotOpen _ fault => .cannotOpen fault
  | nullInPath => .badValue
  | badEncoding _ => .badEncoding
  | noExitCode _ => .badAttribute
  | other category _ => category

def message : Mishap → String
  | tokensExhausted => "list index out of range"
  | textExhausted => "string index out of range"
  | cannotEvaluate node => "cannot evaluate " ++ node
  | cannotExecute node => "cannot execute " ++ node
  | cannotPrint node => "cannot print " ++ node
  | integerTooLong =>
    "Exceeds the limit (" ++ toString Decimal.digitLimit ++ " digits) for integer string " ++
      "conversion; use sys.set_int_max_str_digits() to increase the limit"
  | reservedPath path => "'" ++ path ++ "' is a reserved filename"
  | unknownLevel name => "unknown log level '" ++ name ++ "'"
  | cannotOpen path fault =>
    "[Errno " ++ toString fault.code ++ "] " ++ fault.text ++ ": " ++ Text.quoted path
  | nullInPath => "embedded null byte"
  | badEncoding fault => fault.text
  | noExitCode family => "'" ++ family ++ "' object has no attribute 'exit_code'"
  | other _ text => text

/-- The category and the message, as a report names a mishap. -/
def summary (m : Mishap) : String :=
  m.category.label ++ ": " ++ m.message

end Mishap

inductive Failure
  | diagnostic (d : Diagnostic)
  | mishap (m : Mishap)
  deriving DecidableEq, Repr

def Failure.message : Failure → String
  | diagnostic d => d.message
  | mishap m => m.message

end LoxLang
