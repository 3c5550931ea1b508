/-!
The number that a binary floating-point value stands for.
-/

set_option autoImplicit false
set_option relaxedAutoImplicit false

namespace LoxLang.Decimal

/-- A finite value is `± mantissa * 2 ^ exponent`; a zero has the mantissa `0`. -/
inductive Double
  | nan
  | infinite (negative : Bool)
  | finite (negative : Bool) (mantissa : Nat) (exponent : Int)
  deriving DecidableEq, Repr

namespace Double

/-- The exponent of the least positive value, which all values below `2 ^ 52` times it share. -/
def leastExponent : Int := -1074

def ofFloat (x : Float) : Double :=
  let bits : Nat := x.toBits.toNat
  let negative := decide (Nat.pow 2 63 ≤ bits)
  let biased : Nat := bits / Nat.pow 2 52 % Nat.pow 2 11
  let fraction : Nat := bits % Nat.pow 2 52
  if biased = 2047 then
    if fraction = 0 then .infinite negative else .nan
  else if biased = 0 then
    .finite negative fraction leastExponent
  else
    .finite negative (Nat.pow 2 52 + fraction) ((biased : Int) - 1 + leastExponent)

/-- Whether a value is the integer `n`. -/
def isInteger (n : Int) : Double → Bool
  | .finite negative mantissa exponent =>
    let signed : Int := if negative then -mantissa else mantissa
    n * ↑(Nat.pow 2 (-exponent).toNat) == signed * ↑(Nat.pow 2 exponent.toNat)
  | _ => false

end Double

end LoxLang.Decimal
