import LoxLang.Failure

/-!
The texts of a value: as it is printed, as a literal of the language, and as it is inspected.

A whole number beyond the limit of digits has none of them.
-/

set_option autoImplicit false
set_option relaxedAutoImplicit false

namespace LoxLang.Value

/-- Literals are written with an exponent below `10 ^ -4` and from `10 ^ 16` on. -/
def literalLayout : Decimal.Layout :=
  ⟨"nan", fun e => decide (-4 ≤ e) && decide (e < 16), ".0"⟩

/-- Printed numbers have all digits in their places, and a whole number has no point. -/
def printLayout : Decimal.Layout :=
  ⟨"NaN", fun _ => true, ""⟩

/-- Whether the digits of a whole number are too many to be written. -/
def isTooLong (n : Int) : Bool :=
  Nat.pow 10 Decimal.digitLimit ≤ n.natAbs

def integerText (n : Int) : Except Mishap String :=
  if isTooLong n then .error .integerTooLong
  else .ok (String.ofList ((if n < 0 then ['-'] else []) ++ Nat.toDigits 10 n.natAbs))

/-- The text that a print statement writes. -/
def text : Value → Except Mishap String
  | nil => .ok "nil"
  | bool b => .ok (if b then "true" else "false")
  | integer n => integerText n
  | float x => .ok (printLayout.write x)
  | string s => .ok s

/-- The text in a syntax tree, which tells the variants apart. -/
def literalText : Value → Except Mishap String
  | nil => .ok "nil"
  | bool b => .ok (if b then "true" else "false")
  | integer n => integerText n
  | float x => .ok (literalLayout.write x)
  | string s => .ok ("\"" ++ s ++ "\"")

/-- The text in the description of a token or a scope, with strings written by `quote`. -/
def inspect (quote : String → String) : Value → Except Mishap String
  | nil => .ok "None"
  | bool b => .ok (if b then "True" else "False")
  | integer n => integerText n
  | float x => .ok (literalLayout.write x)
  | string s => .ok (quote s)

theorem integerText_eq_error_iff {n : Int} {m : Mishap} :
    integerText n = .error m ↔ m = .integerTooLong ∧ isTooLong n = true := by
  by_cases h : isTooLong n <;> simp [integerText, h, eq_comm]

end LoxLang.Value

namespace LoxLang.Token

/-- Kind, lexeme and literal. -/
def describe (token : Token) : Except Mishap String := do
  let literal ← token.literal.inspect id
  .ok (token.kind.label ++ " " ++ token.lexeme ++ " " ++ literal)

end LoxLang.Token
