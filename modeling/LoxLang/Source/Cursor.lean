import LoxLang.Failure
import LoxLang.Source.CharClass

/-!
A reading position in source text.

The text is cut in three: what lies before the lexeme, the lexeme that is being read, and the rest.
Reading moves characters from the rest to the lexeme and never loses one.
-/

set_option autoImplicit false
set_option relaxedAutoImplicit false

namespace LoxLang.Source

/-- The characters before the lexeme, those of the lexeme and the tokens found so far are kept last
first. -/
structure Cursor where
  before : List Char
  lexeme : List Char
  rest : List Char
  line : Nat
  tokens : List Token
  deriving DecidableEq, Repr

namespace Cursor

def ofText (text : List Char) : Cursor :=
  ⟨[], [], text, 1, []⟩

/-- The whole text. -/
def source (c : Cursor) : List Char :=
  c.before.reverse ++ c.lexeme.reverse ++ c.rest

def start (c : Cursor) : Nat :=
  c.before.length

def position (c : Cursor) : Nat :=
  c.before.length + c.lexeme.length

def isSpent (c : Cursor) : Bool :=
  c.rest.isEmpty

/-- The next character; beyond the end stands the null character. -/
def next (c : Cursor) : Char :=
  c.rest.headD '\x00'

def afterNext (c : Cursor) : Char :=
  (c.rest.drop 1).headD '\x00'

def lexemeText (c : Cursor) : String :=
  String.ofList c.lexeme.reverse

/-- Begins the next lexeme here. -/
def mark (c : Cursor) : Cursor :=
  { c with before := c.lexeme ++ c.before, lexeme := [] }

/-- Takes the next `n` characters, or all that are left, into the lexeme. -/
def move (n : Nat) (c : Cursor) : Cursor :=
  { c with lexeme := (c.rest.take n).reverse ++ c.lexeme, rest := c.rest.drop n }

def moveWhile (p : Char → Bool) (c : Cursor) : Cursor :=
  c.move (c.rest.takeWhile p).length

def addLines (n : Nat) (c : Cursor) : Cursor :=
  { c with line := c.line + n }

/-- Ends a token with the lexeme. -/
def emit (kind : Token.Kind) (literal : Value) (c : Cursor) : Cursor :=
  { c with tokens := ⟨kind, c.lexemeText, literal, c.line⟩ :: c.tokens }

/-- Takes the next character if it is `expected`. -/
def accept (expected : Char) (c : Cursor) : Bool × Cursor :=
  if c.rest.head? = some expected then (true, c.move 1) else (false, c)

end Cursor

end LoxLang.Source
