import LoxLang.Source.Cursor

/-!
Cutting source text into tokens.

The steps of the lexer act on a `Cursor`. A step that fails leaves the cursor where the fault was
found, so a failed step can be told from one that was not taken.
-/

set_option autoImplicit false
set_option relaxedAutoImplicit false

namespace LoxLang.Source

abbrev Lexer := EStateM Failure Cursor

namespace Lexer

open Token.Kind (ofWord ofSingle? ofDouble?)

def fail {α : Type} (fault : Diagnostic.LexicalFault) (line : Nat) (lexeme : String) : Lexer α :=
  throw (.diagnostic (.atText (.lexical fault) line lexeme))

def emit (kind : Token.Kind) (literal : Value := .nil) : Lexer Unit :=
  modify (Cursor.emit kind literal)

/-- Takes the next character, of which there must be one. -/
def take : Lexer Char := do
  let c ← get
  match c.rest with
  | [] => throw (.mishap .textExhausted)
  | x :: _ =>
    set (c.move 1)
    return x

def accept (expected : Char) : Lexer Bool :=
  modifyGet (Cursor.accept expected)

/-- Everything up to the end of the line, which is not taken itself. -/
def skipLine : Lexer Unit :=
  modify (Cursor.moveWhile (· != '\n'))

/-- The text of a block comment up to its closing mark. Comments do not nest. -/
def commentBody? : List Char → Option (List Char)
  | [] => none
  | '*' :: '/' :: _ => some []
  | c :: cs => (commentBody? cs).map (c :: ·)

/-- The rest of a block comment; a missing closing mark is reported on the line where this began. -/
def skipBlock : Lexer Unit := do
  let c ← get
  match commentBody? c.rest with
  | some body => set ((c.move (body.length + 2)).addLines (body.count '\n'))
  | none =>
    set ((c.move c.rest.length).addLines (c.rest.count '\n'))
    fail .unterminatedComment c.line ""

/-- The rest of a string, which may span lines; the literal is the lexeme without its marks. -/
def quotedText : Lexer Unit := do
  let c ← get
  let body := c.rest.takeWhile (· != '"')
  let c := (c.move body.length).addLines (body.count '\n')
  set c
  if c.isSpent then
    fail .unterminatedString c.line ""
  else
    let c := c.move 1
    set c
    emit .string (.string (String.ofList (c.lexeme.reverse.drop 1).dropLast))

/-- The rest of a number. A point belongs to it only if a digit follows. -/
def numeral : Lexer Unit := do
  modify (Cursor.moveWhile isDigit)
  let c ← get
  let fractional := c.next = '.' && isDigit c.afterNext
  if fractional then
    modify fun c => (c.move 1).moveWhile isDigit
  let c ← get
  let text := c.lexeme.reverse
  let literal? :=
    if fractional then (Decimal.readFraction? text).map Value.float
    else (Decimal.readInteger? text).map Value.integer
  match literal? with
  | some literal => emit .number literal
  | none => fail .malformedNumber c.line c.lexemeText

/-- The rest of a word. -/
def word : Lexer Unit := do
  modify (Cursor.moveWhile isAlphaNumeric)
  let c ← get
  emit (ofWord c.lexemeText)

/-- One token, one comment or one character of white space. -/
def step : Lexer Unit := do
  let c ← take
  if let some kind := ofSingle? c then
    emit kind
  else if let some (joined, single) := ofDouble? c then
    emit (if ← accept '=' then joined else single)
  else if c = '/' then
    if ← accept '/' then skipLine
    else if ← accept '*' then skipBlock
    else emit .slash
  else if c = ' ' || c = '\r' || c = '\t' then
    pure ()
  else if c = '\n' then
    modify (Cursor.addLines 1)
  else if c = '"' then
    quotedText
  else if isDigit c then
    numeral
  else if isAlpha c then
    word
  else
    fail .unexpectedCharacter (← get).line (String.singleton c)

/-- Steps to the end of the text. Each takes a character, so `n` steps suffice for `n`
characters. -/
def stepsWithin : Nat → Lexer Unit
  | 0 => pure ()
  | n + 1 => do
    if (← get).isSpent then
      pure ()
    else
      modify Cursor.mark
      step
      stepsWithin n

/-- All tokens of the text, the last of which marks its end. -/
def tokens : Lexer (List Token) := do
  stepsWithin (← get).rest.length
  modify fun c => { c with tokens := ⟨.endOfText, "", .nil, c.line⟩ :: c.tokens }
  return (← get).tokens.reverse

end Lexer

/-- The tokens of a source text. -/
def tokenize (source : String) : Except Failure (List Token) :=
  match Lexer.tokens.run (Cursor.ofText source.toList) with
  | .ok tokens _ => .ok tokens
  | .error failure _ => .error failure

end LoxLang.Source
