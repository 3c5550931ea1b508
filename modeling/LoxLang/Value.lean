import LoxLang.Decimal.Layout
import LoxLang.Decimal.Numeral

/-!
The values of the language: nil, truth values, whole numbers of any size, floating-point numbers
and strings.
-/

set_option autoImplicit false
set_option relaxedAutoImplicit false

namespace LoxLang

inductive Variant
  | none
  | bool
  | integer
  | float
  | string
  deriving DecidableEq, Repr

def Variant.name : Variant → String
  | .none => "None"
  | .bool => "Bool"
  | .integer => "Integer"
  | .float => "Float"
  | .string => "String"

inductive Value
  | nil
  | bool (b : Bool)
  | integer (n : Int)
  | float (x : Float)
  | string (s : String)
  deriving DecidableEq, Repr

namespace Value

instance : Inhabited Value := ⟨nil⟩

def variant : Value → Variant
  | nil => .none
  | bool _ => .bool
  | integer _ => .integer
  | float _ => .float
  | string _ => .string

/-- Zero and the empty string are false, and so are nil and every floating-point number. -/
def isTruthy : Value → Bool
  | nil => false
  | bool b => b
  | integer n => n != 0
  | float _ => false
  | string s => s != ""

/-- Equality of the language: values of two variants differ, also `1` and `1.0`. -/
def equals : Value → Value → Bool
  | nil, nil => true
  | bool a, bool b => a == b
  | integer m, integer n => m == n
  | float x, float y => x == y
  | string s, string t => s == t
  | _, _ => false

/-- Whether both values are whole numbers or both are floating-point numbers. -/
def sameNumeric : Value → Value → Bool
  | integer _, integer _ => true
  | float _, float _ => true
  | _, _ => false

/-- The whole number that a value stands for; a truth value counts as one or zero. -/
def asInteger? : Value → Option Int
  | bool b => some (if b then 1 else 0)
  | integer n => some n
  | _ => none

/-- Equality as numbers: truth values, whole numbers and floating-point numbers are equal if they
stand for the same number, and all other values only within their variant. -/
def equalsAsNumber (a b : Value) : Bool :=
  match a, b, a.asInteger?, b.asInteger? with
  | float x, float y, _, _ => x == y
  | float x, _, _, some n => (Decimal.Double.ofFloat x).isInteger n
  | _, float y, some m, _ => (Decimal.Double.ofFloat y).isInteger m
  | _, _, some m, some n => m == n
  | _, _, _, _ => a.equals b

end Value

end LoxLang
