import LoxLang.Decimal.Double

/-!
The shortest decimal that reads back to a binary floating-point value.

Around `m * 2 ^ q` lie the numbers that round to it. Of the decimal grids with the spacings
`10 ^ k`, the widest one with a point among them is taken, and of its points the nearest.
-/

set_option autoImplicit false
set_option relaxedAutoImplicit false

namespace LoxLang

/-- The number `digits * 10 ^ scale`. -/
structure Decimal where
  digits : Nat
  scale : Int
  deriving DecidableEq, Repr

namespace Decimal

/-- The numbers that round to `m * 2 ^ q`, in quarters of `2 ^ q`. Below a power of two the spacing
halves, so the lower end is nearer there; the ends belong to the range of an even mantissa. -/
structure RoundingRange where
  lower : Nat
  value : Nat
  upper : Nat
  closed : Bool
  exponent : Int

def RoundingRange.of (m : Nat) (q : Int) : RoundingRange where
  lower := if m = Nat.pow 2 52 ∧ Double.leastExponent < q then 4 * m - 1 else 4 * m - 2
  value := 4 * m
  upper := 4 * m + 2
  closed := m % 2 = 0
  exponent := q - 2

namespace RoundingRange

/-- The number `a * 2 ^ exponent` in the unit `1 / (2 ^ i * 10 ^ j)` that makes it and the grid of
spacing `10 ^ k` whole. -/
def onGrid (r : RoundingRange) (k : Int) (a : Nat) : Nat :=
  a * Nat.pow 2 r.exponent.toNat * Nat.pow 10 (-k).toNat

/-- The spacing `10 ^ k` in the unit of `onGrid`. -/
def spacing (r : RoundingRange) (k : Int) : Nat :=
  Nat.pow 10 k.toNat * Nat.pow 2 (-r.exponent).toNat

/-- Whether the grid point `c * 10 ^ k` rounds to the value. -/
def holds (r : RoundingRange) (k : Int) (c : Nat) : Bool :=
  let point := c * r.spacing k
  if r.closed then r.onGrid k r.lower ≤ point && point ≤ r.onGrid k r.upper
  else r.onGrid k r.lower < point && point < r.onGrid k r.upper

/-- The point of the grid of spacing `10 ^ k` that rounds to the value and is nearest to it; of two
as near as each other, the even one. -/
def nearest? (r : RoundingRange) (k : Int) : Option Nat :=
  let below := r.onGrid k r.value / r.spacing k
  let excess := r.onGrid k r.value % r.spacing k
  match r.holds k below, r.holds k (below + 1) with
  | true, false => some below
  | false, true => some (below + 1)
  | false, false => none
  | true, true =>
    if 2 * excess < r.spacing k then some below
    else if r.spacing k < 2 * excess then some (below + 1)
    else if below % 2 = 0 then some below
    else some (below + 1)

end RoundingRange

/-- The number `m * 2 ^ q`, digit for digit. -/
def exact (m : Nat) (q : Int) : Decimal :=
  if 0 ≤ q then ⟨m * Nat.pow 2 q.toNat, 0⟩ else ⟨m * Nat.pow 5 (-q).toNat, q⟩

/-- A power of ten above `m * 2 ^ q`, as `log₁₀ 2 < 0.30103`. -/
def scaleAbove (m : Nat) (q : Int) : Int :=
  (m.log2 + 1 + q) * 30103 / 100000 + 1

/-- Seventeen digits always suffice; thirty grids leave room for the estimate of the first. -/
def shortest (m : Nat) (q : Int) : Decimal :=
  let range := RoundingRange.of m q
  let found := (List.range 30).findSome? fun (i : Nat) =>
    let k := scaleAbove m q - i
    (range.nearest? k).map (Decimal.mk · k)
  if m = 0 then ⟨0, 0⟩ else found.getD (exact m q)

end Decimal

end LoxLang
