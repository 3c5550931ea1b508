import LoxLang.Decimal.Shortest

/-!
The two written forms of a decimal, positional and with an exponent, and the choice between them.
-/

set_option autoImplicit false
set_option relaxedAutoImplicit false

namespace LoxLang.Decimal

def zeros (n : Nat) : List Char := List.replicate n '0'

/-- The exponent of the first digit. -/
def leading (d : Decimal) : Int :=
  (Nat.toDigits 10 d.digits).length + d.scale - 1

/-- All digits in their places; `wholeMark` follows a whole number. -/
def positional (wholeMark : List Char) (d : Decimal) : List Char :=
  let ds := Nat.toDigits 10 d.digits
  let before := (ds.length : Int) + d.scale
  if 0 ≤ d.scale then ds ++ zeros d.scale.toNat ++ wholeMark
  else if 0 < before then ds.take before.toNat ++ '.' :: ds.drop before.toNat
  else '0' :: '.' :: zeros (-before).toNat ++ ds

/-- A signed exponent of at least two digits. -/
def exponentMark (e : Int) : List Char :=
  let ds := Nat.toDigits 10 e.natAbs
  'e' :: (if e < 0 then '-' else '+') :: zeros (2 - ds.length) ++ ds

/-- One digit, the other digits after a point, and the exponent of the first. -/
def scientific (d : Decimal) : List Char :=
  match Nat.toDigits 10 d.digits with
  | [] => []
  | [c] => c :: exponentMark d.leading
  | c :: ds => c :: '.' :: ds ++ exponentMark d.leading

/-- How a floating-point value is written. -/
structure Layout where
  nan : String
  /-- The exponents of the first digit that are written positionally. -/
  isPositional : Int → Bool
  /-- What follows a whole number in positional form. -/
  wholeMark : String

def Layout.write (l : Layout) (x : Float) : String :=
  match Double.ofFloat x with
  | .nan => l.nan
  | .infinite negative => if negative then "-inf" else "inf"
  | .finite negative m q =>
    let d := shortest m q
    let digits := if l.isPositional d.leading then d.positional l.wholeMark.toList else d.scientific
    String.ofList (if negative then '-' :: digits else digits)

end LoxLang.Decimal
