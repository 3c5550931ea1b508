import LoxLang.Text.Quoted
import LoxLang.Token

/-!
Diagnostics: what is wrong with a program, on which line, and at which piece of its text.
-/

set_option autoImplicit false
set_option relaxedAutoImplicit false

namespace LoxLang

namespace Diagnostic

inductive LexicalFault
  | unexpectedCharacter
  | unterminatedString
  | malformedNumber
  | unterminatedComment
  deriving DecidableEq, Repr

inductive GrammarFault
  | expectedExpression
  | expectedToken
  | expectedIdentifier
  | invalidAssignmentTarget
  deriving DecidableEq, Repr

inductive RuntimeFault
  | undefinedVariable
  | divisionByZero
  deriving DecidableEq, Repr

/-- A fault of grammar or at run time comes with its own wording; `expected` is the lexeme that the
grammar required. -/
inductive Cause
  | lexical (fault : LexicalFault)
  | grammar (fault : GrammarFault) (wording : String) (expected : Option String)
  | runtime (fault : RuntimeFault) (wording : String)
  deriving DecidableEq, Repr

namespace LexicalFault

def label : LexicalFault → String
  | unexpectedCharacter => "UNEXPECTED_CHARACTER"
  | unterminatedString => "UNTERMINATED_STRING"
  | malformedNumber => "MALFORMED_NUMBER"
  | unterminatedComment => "UNTERMINATED_COMMENT"

def description : LexicalFault → String
  | unexpectedCharacter => "Unexpected character."
  | unterminatedString => "Unterminated string."
  | malformedNumber => "Malformed number."
  | unterminatedComment => "Unterminated block comment."

end LexicalFault

namespace GrammarFault

def label : GrammarFault → String
  | expectedExpression => "EXPECTED_EXPRESSION"
  | expectedToken => "EXPECTED_TOKEN"
  | expectedIdentifier => "EXPECTED_IDENTIFIER"
  | invalidAssignmentTarget => "INVALID_ASSIGNMENT_TARGET"

def description : GrammarFault → String
  | expectedExpression => "expected expression"
  | expectedToken => "expected token"
  | expectedIdentifier => "expected identifier"
  | invalidAssignmentTarget => "invalid assignment target"

end GrammarFault

namespace RuntimeFault

def label : RuntimeFault → String
  | undefinedVariable => "UNDEFINED_VARIABLE"
  | divisionByZero => "DIVISION_BY_ZERO"

def description : RuntimeFault → String
  | undefinedVariable => "undefined variable"
  | divisionByZero => "division by zero"

end RuntimeFault

namespace Cause

/-- The class of a diagnostic. -/
def family : Cause → String
  | lexical _ => "LexError"
  | grammar .. => "ParseError"
  | runtime .. => "LoxRuntimeError"

def label : Cause → String
  | lexical fault => fault.label
  | grammar fault .. => fault.label
  | runtime fault _ => fault.label

def description : Cause → String
  | lexical fault => fault.description
  | grammar fault .. => fault.description
  | runtime fault _ => fault.description

def wording : Cause → String
  | lexical fault => fault.description
  | grammar _ wording _ => wording
  | runtime _ wording => wording

/-- A program that is malformed exits with `65`, one that fails while it runs with `70`. -/
def exitCode : Cause → Nat
  | lexical _ => 65
  | grammar .. => 65
  | runtime .. => 70

end Cause

end Diagnostic

/-- The lexeme is absent where no piece of the text is at fault, as at the end of the text. -/
structure Diagnostic where
  cause : Diagnostic.Cause
  line : Int
  lexeme : Option String
  lexeme_ne_empty : lexeme ≠ some ""
  deriving DecidableEq, Repr

namespace Diagnostic

open Cause

/-- A diagnostic at a piece of text; an empty piece is none. -/
def atText (cause : Cause) (line : Int) (lexeme : String) : Diagnostic where
  cause
  line
  lexeme := if lexeme = "" then none else some lexeme
  lexeme_ne_empty := by split <;> simp_all

def atToken (cause : Cause) (token : Token) : Diagnostic :=
  atText cause token.line token.lexeme

def undefinedVariable (name : Token) : Diagnostic :=
  atToken (runtime .undefinedVariable ("Undefined variable '" ++ name.lexeme ++ "'.")) name

def divisionByZero (operator : Token) : Diagnostic :=
  atToken (runtime .divisionByZero "Division by zero.") operator

/-- The lexeme between apostrophes. -/
def context (d : Diagnostic) : String :=
  match d.lexeme with
  | some lexeme => "'" ++ lexeme ++ "'"
  | none => ""

def message (d : Diagnostic) : String :=
  "[line " ++ toString d.line ++ "] Error " ++ d.context ++ ": " ++ d.cause.wording

/-- The form in which log entries name a diagnostic. -/
def summary (d : Diagnostic) : String :=
  d.cause.family ++ "(" ++ d.cause.label ++ ", line=" ++ toString d.line ++ ", lexeme=" ++
    (d.lexeme.elim "None" Text.quoted) ++ ")"

def exitCode (d : Diagnostic) : Nat :=
  d.cause.exitCode

end Diagnostic

end LoxLang
