import LoxLang.Value

/-!
Tokens: classified pieces of source text with the line on which they end.
-/

set_option autoImplicit false
set_option relaxedAutoImplicit false

namespace LoxLang

inductive Token.Kind
  | leftParen
  | rightParen
  | leftBrace
  | rightBrace
  | comma
  | dot
  | minus
  | plus
  | semicolon
  | slash
  | star
  | bang
  | bangEqual
  | equal
  | equalEqual
  | greater
  | greaterEqual
  | less
  | lessEqual
  | identifier
  | string
  | number
  | kwAnd
  | kwClass
  | kwElse
  | kwFalse
  | kwFor
  | kwFun
  | kwIf
  | kwNil
  | kwOr
  | kwPrint
  | kwReturn
  | kwSuper
  | kwThis
  | kwTrue
  | kwVar
  | kwWhile
  | endOfText
  deriving DecidableEq, Repr

structure Token where
  kind : Token.Kind
  lexeme : String
  literal : Value
  line : Int
  deriving DecidableEq, Repr

namespace Token

namespace Kind

/-- The name under which a kind is shown. -/
def label : Kind → String
  | leftParen => "LEFT_PAREN"
  | rightParen => "RIGHT_PAREN"
  | leftBrace => "LEFT_BRACE"
  | rightBrace => "RIGHT_BRACE"
  | comma => "COMMA"
  | dot => "DOT"
  | minus => "MINUS"
  | plus => "PLUS"
  | semicolon => "SEMICOLON"
  | slash => "SLASH"
  | star => "STAR"
  | bang => "BANG"
  | bangEqual => "BANG_EQUAL"
  | equal => "EQUAL"
  | equalEqual => "EQUAL_EQUAL"
  | greater => "GREATER"
  | greaterEqual => "GREATER_EQUAL"
  | less => "LESS"
  | lessEqual => "LESS_EQUAL"
  | identifier => "IDENTIFIER"
  | string => "STRING"
  | number => "NUMBER"
  | kwAnd => "AND"
  | kwClass => "CLASS"
  | kwElse => "ELSE"
  | kwFalse => "FALSE"
  | kwFor => "FOR"
  | kwFun => "FUN"
  | kwIf => "IF"
  | kwNil => "NIL"
  | kwOr => "OR"
  | kwPrint => "PRINT"
  | kwReturn => "RETURN"
  | kwSuper => "SUPER"
  | kwThis => "THIS"
  | kwTrue => "TRUE"
  | kwVar => "VAR"
  | kwWhile => "WHILE"
  | endOfText => "EOF"

/-- The reserved spellings and their kinds; `nil` has two spellings. -/
def keywords : List (String × Kind) :=
  [("and", kwAnd), ("class", kwClass), ("else", kwElse), ("false", kwFalse), ("for", kwFor),
    ("fun", kwFun), ("if", kwIf), ("nil", kwNil), ("none", kwNil), ("or", kwOr),
    ("print", kwPrint), ("return", kwReturn), ("super", kwSuper), ("this", kwThis),
    ("true", kwTrue), ("var", kwVar), ("while", kwWhile)]

/-- The kind of a word. -/
def ofWord (word : String) : Kind :=
  (keywords.lookup word).getD identifier

/-- The kind of a character that is a token whatever follows it. -/
def ofSingle? (c : Char) : Option Kind :=
  match c with
  | '(' => some leftParen
  | ')' => some rightParen
  | '\x7b' => some leftBrace
  | '\x7d' => some rightBrace
  | ',' => some comma
  | '.' => some dot
  | '-' => some minus
  | '+' => some plus
  | ';' => some semicolon
  | '*' => some star
  | _ => none

/-- The kinds of a character before an equals sign and elsewhere. -/
def ofDouble? (c : Char) : Option (Kind × Kind) :=
  match c with
  | '!' => some (bangEqual, bang)
  | '=' => some (equalEqual, equal)
  | '<' => some (lessEqual, less)
  | '>' => some (greaterEqual, greater)
  | _ => none

end Kind

end Token

end LoxLang
