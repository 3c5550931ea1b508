import LoxLang.Decimal.Numeral
import LoxLang.Failure
import LoxLang.Source.CharClass
import Mathlib.Data.Nat.Digits.Defs

/-!
The pieces of source text: tokens, comments and single blanks, each given by how it is spelled.

A text is read by cutting off the longest piece in front again and again (`Leads`, `Tiles`). The one
exception to the longest piece is that a slash before a slash or a star always opens a comment, so
that a comment without its end is not read as two operators. Where no piece can be cut off, the text
is stuck and a diagnostic says why (`Stuck`).
-/

set_option autoImplicit false
set_option relaxedAutoImplicit false

namespace LoxLang.Source

open Token.Kind

namespace Piece

/-- The forms of pieces. -/
inductive Form
  | mark (kind : Token.Kind)
  | string
  | integer
  | fraction
  | word
  | blank
  | lineComment
  | blockComment
  deriving DecidableEq, Repr

/-- The operators and the punctuation with their spellings. -/
def marks : List (Token.Kind × List Char) :=
  [(leftParen, ['(']), (rightParen, [')']), (leftBrace, ['\x7b']), (rightBrace, ['\x7d']),
    (comma, [',']), (dot, ['.']), (minus, ['-']), (plus, ['+']), (semicolon, [';']),
    (slash, ['/']), (star, ['*']), (bang, ['!']), (bangEqual, ['!', '=']), (equal, ['=']),
    (equalEqual, ['=', '=']), (greater, ['>']), (greaterEqual, ['>', '=']), (less, ['<']),
    (lessEqual, ['<', '='])]

def blanks : List Char := [' ', '\r', '\t', '\n']

/-- `form.Spells text` says that `text` is a piece of the form. A string runs to the next quotation
mark, a block comment to the first star before a slash. -/
inductive Form.Spells : Form → List Char → Prop
  | mark {kind : Token.Kind} {text : List Char} (h : (kind, text) ∈ marks) :
    Spells (.mark kind) text
  | string {body : List Char} (h : '"' ∉ body) : Spells .string ('"' :: body ++ ['"'])
  | integer {digits : List Char} (hne : digits ≠ []) (h : ∀ c ∈ digits, isDigit c = true) :
    Spells .integer digits
  | fraction {whole part : List Char} (hwhole : whole ≠ []) (hpart : part ≠ [])
    (hw : ∀ c ∈ whole, isDigit c = true) (hp : ∀ c ∈ part, isDigit c = true) :
    Spells .fraction (whole ++ '.' :: part)
  | word {c : Char} {cs : List Char} (hc : isAlpha c = true)
    (hcs : ∀ x ∈ cs, isAlphaNumeric x = true) : Spells .word (c :: cs)
  | blank {c : Char} (h : c ∈ blanks) : Spells .blank [c]
  | lineComment {body : List Char} (h : '\n' ∉ body) : Spells .lineComment ('/' :: '/' :: body)
  | blockComment {body : List Char} (h : ¬ ['*', '/'] <:+: body ++ ['*']) :
    Spells .blockComment ('/' :: '*' :: body ++ ['*', '/'])

def Form.isComment : Form → Bool
  | lineComment | blockComment => true
  | _ => false

end Piece

/-- A text that is spelled as its form requires. -/
structure Piece where
  form : Piece.Form
  text : List Char
  spells : form.Spells text

namespace Piece

/-! ### What a piece means -/

/-- The value of a decimal digit. -/
def digitOf (c : Char) : Nat :=
  c.toNat - '0'.toNat

/-- The number that decimal digits denote. -/
def numberOf (digits : List Char) : Nat :=
  Nat.ofDigits 10 (digits.reverse.map digitOf)

/-- A string stands for the text between its quotation marks, a number for its decimal value. -/
def literal (p : Piece) : Value :=
  match p.form with
  | .string => .string (String.ofList p.text.tail.dropLast)
  | .integer => .integer (numberOf p.text)
  | .fraction =>
    .float (Float.ofScientific (numberOf (p.text.filter (· != '.'))) true
      (p.text.dropWhile (· != '.')).tail.length)
  | _ => .nil

/-- Blanks and comments are no tokens. -/
def kind? (p : Piece) : Option Token.Kind :=
  match p.form with
  | .mark kind => some kind
  | .string => some .string
  | .integer | .fraction => some .number
  | .word => some (ofWord (String.ofList p.text))
  | .blank | .lineComment | .blockComment => none

/-- The token of a piece that ends on the given line. -/
def token? (line : Nat) (p : Piece) : Option Token :=
  p.kind?.map fun kind ↦ ⟨kind, String.ofList p.text, p.literal, line⟩

def newlines (text : List Char) : Nat :=
  text.count '\n'

/-- The text of pieces in a row. -/
def spell (ps : List Piece) : List Char :=
  ps.flatMap text

/-- The tokens of pieces in a row, the first of which begins on the given line. -/
def tokensFrom (line : Nat) : List Piece → List Token
  | [] => []
  | p :: ps =>
    (p.token? (line + newlines p.text)).toList ++ tokensFrom (line + newlines p.text) ps

/-! ### Cutting a text into pieces -/

/-- `p` is the piece to be cut off in front of `source`. -/
structure Leads (p : Piece) (source : List Char) : Prop where
  starts : p.text <+: source
  longest : ∀ q : Piece, q.text <+: source → q.text.length ≤ p.text.length
  comment : ['/', '/'] <+: source ∨ ['/', '*'] <+: source → p.form.isComment = true

/-- Each of the pieces is cut off in front of the following ones and of `rest`. -/
def Tiles : List Piece → List Char → Prop
  | [], _ => True
  | p :: ps, rest => p.Leads (p.text ++ (spell ps ++ rest)) ∧ Tiles ps rest

/-- Whole numbers have a greatest length. -/
def Readable (p : Piece) : Prop :=
  p.form = .integer → p.text.length ≤ Decimal.digitLimit

/-- No piece can be cut off in front of `source`, of which `line` is the first line, and the
diagnostic says why. -/
inductive Stuck (line : Nat) : List Char → Diagnostic → Prop
  | unexpected {c : Char} {cs : List Char} (hquote : c ≠ '"')
    (h : ∀ p : Piece, ¬ p.text <+: c :: cs) :
    Stuck line (c :: cs) (.atText (.lexical .unexpectedCharacter) line (String.singleton c))
  | openString {cs : List Char} (h : '"' ∉ cs) :
    Stuck line ('"' :: cs) (.atText (.lexical .unterminatedString) ↑(line + newlines cs) "")
  | openComment {cs : List Char} (h : ¬ ['*', '/'] <:+: cs) :
    Stuck line ('/' :: '*' :: cs) (.atText (.lexical .unterminatedComment) line "")
  | tooLong {p : Piece} {cs : List Char} (hp : p.Leads (p.text ++ cs)) (h : ¬ p.Readable) :
    Stuck line (p.text ++ cs)
      (.atText (.lexical .malformedNumber) line (String.ofList p.text))

end Piece

end LoxLang.Source
