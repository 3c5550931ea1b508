import LoxLang.Decimal.Shortest
import LoxLang.Proofs.Decimal.Unsigned
import Mathlib.Algebra.Order.Field.Power
import Mathlib.Data.Rat.Cast.Order
import Mathlib.Tactic.FieldSimp
import Mathlib.Tactic.Linarith
import Mathlib.Tactic.LinearCombination
import Mathlib.Tactic.Positivity
import Mathlib.Tactic.Ring

/-!
The shortest decimal of a floating-point number rounds to it.

The decimal lies among the numbers that round to the floating-point number (`rounds_shortest`), and
no number rounds to two of them (`eq_of_rounds`). So different numbers have different decimals
(`eq_of_value_shortest_eq`).
-/

set_option autoImplicit false
set_option relaxedAutoImplicit false

namespace LoxLang

/-- The number that a decimal stands for. -/
def Decimal.value (d : Decimal) : ℚ :=
  d.digits * 10 ^ d.scale

namespace Decimal

/-- The number `x` lies between the ends of the range, and at one of them only if they belong to
it. -/
structure RoundingRange.Contains (r : RoundingRange) (x : ℚ) : Prop where
  lower : r.lower * 2 ^ r.exponent ≤ x
  upper : x ≤ r.upper * 2 ^ r.exponent
  inside : r.closed = false → r.lower * 2 ^ r.exponent < x ∧ x < r.upper * 2 ^ r.exponent

/-! ### Points of a decimal grid -/

theorem zpow_mul_pow_toNat_neg {b : ℚ} (hb : b ≠ 0) (e : ℤ) :
    b ^ e * b ^ (-e).toNat = b ^ e.toNat := by
  rw [← zpow_natCast, ← zpow_natCast, ← zpow_add₀ hb]
  congr 1
  omega

namespace RoundingRange

variable (r : RoundingRange) (k : ℤ)

/-- What the comparison on the grid multiplies with, to compare whole numbers. -/
def unit : ℚ :=
  2 ^ (-r.exponent).toNat * 10 ^ (-k).toNat

theorem unit_pos : 0 < r.unit k := by
  unfold unit
  positivity

theorem cast_onGrid (a : ℕ) : (r.onGrid k a : ℚ) = a * 2 ^ r.exponent * r.unit k := by
  have hpow : (2 : ℚ) ^ r.exponent * 2 ^ (-r.exponent).toNat = 2 ^ r.exponent.toNat :=
    zpow_mul_pow_toNat_neg two_ne_zero _
  unfold onGrid unit
  push_cast [Nat.pow_eq]
  rw [← hpow]
  ring

theorem cast_spacing (c : ℕ) : ((c * r.spacing k : ℕ) : ℚ) = c * 10 ^ k * r.unit k := by
  have hpow : (10 : ℚ) ^ k * 10 ^ (-k).toNat = 10 ^ k.toNat :=
    zpow_mul_pow_toNat_neg (by norm_num) _
  unfold spacing unit
  push_cast [Nat.pow_eq]
  rw [← hpow]
  ring

theorem onGrid_le_iff (a c : ℕ) :
    r.onGrid k a ≤ c * r.spacing k ↔ (a * 2 ^ r.exponent : ℚ) ≤ c * 10 ^ k := by
  rw [← @Nat.cast_le ℚ, cast_onGrid, cast_spacing, mul_le_mul_iff_left₀ (r.unit_pos k)]

theorem le_onGrid_iff (a c : ℕ) :
    c * r.spacing k ≤ r.onGrid k a ↔ (c * 10 ^ k : ℚ) ≤ a * 2 ^ r.exponent := by
  rw [← @Nat.cast_le ℚ, cast_onGrid, cast_spacing, mul_le_mul_iff_left₀ (r.unit_pos k)]

variable {r k}

/-- A grid point that rounds to the value lies in the range. -/
theorem contains_of_holds {c : ℕ} (h : r.holds k c = true) :
    r.Contains (Decimal.value ⟨c, k⟩) := by
  have hlower := r.onGrid_le_iff k r.lower c
  have hupper := r.le_onGrid_iff k r.upper c
  unfold holds at h
  dsimp only at h
  split at h
  · next hclosed =>
    simp only [Bool.and_eq_true, decide_eq_true_eq] at h
    exact ⟨hlower.mp h.1, hupper.mp h.2, fun hopen ↦ by simp [hclosed] at hopen⟩
  · simp only [Bool.and_eq_true, decide_eq_true_eq] at h
    have hlt : (r.lower * 2 ^ r.exponent : ℚ) < c * 10 ^ k := by
      rw [← not_le, ← r.le_onGrid_iff]
      exact not_le.mpr h.1
    have hgt : (c * 10 ^ k : ℚ) < r.upper * 2 ^ r.exponent := by
      rw [← not_le, ← r.onGrid_le_iff]
      exact not_le.mpr h.2
    exact ⟨hlt.le, hgt.le, fun _ ↦ ⟨hlt, hgt⟩⟩

theorem holds_of_nearest? {c : ℕ} (h : r.nearest? k = some c) : r.holds k c = true := by
  unfold nearest? at h
  dsimp only at h
  split at h
  · next hbelow _ =>
    obtain rfl := Option.some.inj h
    exact hbelow
  · next _ habove =>
    obtain rfl := Option.some.inj h
    exact habove
  · cases h
  · next hbelow habove =>
    split_ifs at h <;> obtain rfl := Option.some.inj h
    · exact hbelow
    · exact habove
    · exact hbelow
    · exact habove

end RoundingRange

/-! ### The shortest decimal -/

theorem value_exact (m : ℕ) (q : ℤ) : (exact m q).value = m * 2 ^ q := by
  unfold exact value
  split
  · next hq =>
    have hpow : (2 : ℚ) ^ q.toNat = 2 ^ q := by rw [← zpow_natCast, Int.toNat_of_nonneg hq]
    push_cast [Nat.pow_eq]
    rw [hpow, mul_one]
  · next hq =>
    have hpow : (5 : ℚ) ^ q * 5 ^ (-q).toNat = 1 := by
      rw [zpow_mul_pow_toNat_neg (by norm_num), Int.toNat_of_nonpos (by omega), pow_zero]
    have hten : (10 : ℚ) ^ q = 2 ^ q * 5 ^ q := by rw [← mul_zpow]; norm_num
    push_cast [Nat.pow_eq]
    rw [hten]
    linear_combination (m * 2 ^ q : ℚ) * hpow

theorem lower_of (m : ℕ) (q : ℤ) : 4 * m ≤ (RoundingRange.of m q).lower + 2 ∧
    (RoundingRange.of m q).lower ≤ 4 * m ∧ (0 < m → (RoundingRange.of m q).lower < 4 * m) := by
  unfold RoundingRange.of
  dsimp only
  split <;> omega

/-- A floating-point number rounds to itself. -/
theorem contains_value (m : ℕ) (q : ℤ) : (RoundingRange.of m q).Contains (m * 2 ^ q) := by
  have hpos : (0 : ℚ) < 2 ^ (q - 2) := by positivity
  have hvalue : (m * 2 ^ q : ℚ) = (4 * m : ℕ) * 2 ^ (q - 2) := by
    rw [zpow_sub₀ two_ne_zero]
    push_cast
    ring
  obtain ⟨-, hle, hlt⟩ := lower_of m q
  rw [hvalue]
  refine ⟨?_, ?_, fun hopen ↦ ⟨?_, ?_⟩⟩
  · exact mul_le_mul_of_nonneg_right (by exact_mod_cast hle) hpos.le
  · exact mul_le_mul_of_nonneg_right (by exact_mod_cast Nat.le_add_right _ 2) hpos.le
  · have hodd : ¬ m % 2 = 0 := by simpa [RoundingRange.of] using hopen
    exact mul_lt_mul_of_pos_right (by exact_mod_cast hlt (by omega)) hpos
  · exact mul_lt_mul_of_pos_right (by exact_mod_cast Nat.lt_add_of_pos_right two_pos) hpos

/-- The shortest decimal rounds to its number. -/
theorem rounds_shortest (m : ℕ) (q : ℤ) : (RoundingRange.of m q).Contains (shortest m q).value := by
  have hself := contains_value m q
  unfold shortest
  dsimp only
  split
  · next hm =>
    have hzero : (Decimal.value ⟨0, 0⟩) = m * 2 ^ q := by simp [value, hm]
    rwa [hzero]
  · cases hfound : (List.range 30).findSome? fun (i : ℕ) ↦
        ((RoundingRange.of m q).nearest? (scaleAbove m q - i)).map
          (Decimal.mk · (scaleAbove m q - i)) with
    | none =>
      rw [Option.getD_none, value_exact]
      exact hself
    | some d =>
      obtain ⟨i, -, hi⟩ := List.exists_of_findSome?_eq_some hfound
      obtain ⟨c, hc, rfl⟩ := Option.map_eq_some_iff.mp hi
      exact RoundingRange.contains_of_holds (RoundingRange.holds_of_nearest? hc)

/-! ### Ranges do not overlap -/

section

variable {m m' : ℕ} {q q' : ℤ} {x : ℚ}

/-- Ranges one of which begins where the other one ends, or after it, have at most a common end, and
it belongs to both. -/
theorem RoundingRange.meet {r r' : RoundingRange} (hx : r.Contains x) (hx' : r'.Contains x)
    (hends : (r.upper * 2 ^ r.exponent : ℚ) ≤ r'.lower * 2 ^ r'.exponent) :
    r.closed = true ∧ r'.closed = true ∧
      (r.upper * 2 ^ r.exponent : ℚ) = r'.lower * 2 ^ r'.exponent := by
  have hupper := hx.upper
  have hlower := hx'.lower
  refine ⟨?_, ?_, le_antisymm hends (hlower.trans hupper)⟩
  · by_contra hopen
    have hinside := hx.inside (by simpa using hopen)
    linarith [hinside.2]
  · by_contra hopen
    have hinside := hx'.inside (by simpa using hopen)
    linarith [hinside.1]

theorem closed_of_iff : (RoundingRange.of m q).closed = true ↔ m % 2 = 0 :=
  decide_eq_true_iff

theorem not_lt_of_contains (hx : (RoundingRange.of m q).Contains x)
    (hx' : (RoundingRange.of m' q).Contains x) : ¬ m < m' := by
  intro hlt
  have hpos : (0 : ℚ) < 2 ^ (q - 2) := by positivity
  obtain ⟨hlower, -, -⟩ := lower_of m' q
  have hends : 4 * m + 2 ≤ (RoundingRange.of m' q).lower := by omega
  obtain ⟨hclosed, hclosed', hequal⟩ := RoundingRange.meet hx hx'
    (mul_le_mul_of_nonneg_right (by exact_mod_cast hends) hpos.le)
  have hcancel : 4 * m + 2 = (RoundingRange.of m' q).lower := by
    exact_mod_cast mul_right_cancel₀ hpos.ne' hequal
  rw [closed_of_iff] at hclosed hclosed'
  omega

theorem lower_of_normal (hm : 2 ^ 52 ≤ m) (hq : Double.leastExponent < q) :
    2 ^ 54 - 1 ≤ (RoundingRange.of m q).lower := by
  have hpow : Nat.pow 2 52 = 2 ^ 52 := rfl
  unfold RoundingRange.of
  rw [hpow]
  dsimp only
  split <;> omega

/-- A range with a greater exponent lies above. -/
theorem not_lt_of_contains_of_lt (h : Canonical m q) (h' : Canonical m' q')
    (hx : (RoundingRange.of m q).Contains x) (hx' : (RoundingRange.of m' q').Contains x) :
    ¬ q < q' := by
  intro hlt
  have hpos : (0 : ℚ) < 2 ^ (q - 2) := by positivity
  have hleast := lt_of_le_of_lt h.exponent hlt
  have hlower := lower_of_normal (h'.normal.resolve_left hleast.ne') hleast
  have hmantissa := h.mantissa
  have hdouble : (2 * (RoundingRange.of m' q').lower : ℚ) * 2 ^ (q - 2) ≤
      (RoundingRange.of m' q').lower * 2 ^ (q' - 2) := by
    have hstep : (2 : ℚ) * 2 ^ (q - 2) ≤ 2 ^ (q' - 2) := by
      rw [← zpow_one_add₀ two_ne_zero]
      exact zpow_le_zpow_right₀ one_le_two (by omega)
    have hscaled := mul_le_mul_of_nonneg_left hstep
      (RoundingRange.of m' q').lower.cast_nonneg
    linarith
  have hends : 4 * m + 2 ≤ 2 * (RoundingRange.of m' q').lower := by omega
  have hbelow : ((4 * m + 2 : ℕ) : ℚ) * 2 ^ (q - 2) ≤
      (2 * (RoundingRange.of m' q').lower : ℚ) * 2 ^ (q - 2) :=
    mul_le_mul_of_nonneg_right (by exact_mod_cast hends) hpos.le
  obtain ⟨hclosed, -, hequal⟩ := RoundingRange.meet hx hx' (hbelow.trans hdouble)
  rw [closed_of_iff] at hclosed
  have hgap : 4 * m + 2 < 2 * (RoundingRange.of m' q').lower := by omega
  have hstrict : ((4 * m + 2 : ℕ) : ℚ) * 2 ^ (q - 2) <
      (2 * (RoundingRange.of m' q').lower : ℚ) * 2 ^ (q - 2) :=
    mul_lt_mul_of_pos_right (by exact_mod_cast hgap) hpos
  exact absurd hequal (hstrict.trans_le hdouble).ne

/-- A number rounds to one floating-point number only. -/
theorem eq_of_rounds (h : Canonical m q) (h' : Canonical m' q')
    (hx : (RoundingRange.of m q).Contains x) (hx' : (RoundingRange.of m' q').Contains x) :
    m = m' ∧ q = q' := by
  obtain rfl : q = q' := le_antisymm (not_lt.mp (not_lt_of_contains_of_lt h' h hx' hx))
    (not_lt.mp (not_lt_of_contains_of_lt h h' hx hx'))
  exact ⟨le_antisymm (not_lt.mp (not_lt_of_contains hx' hx))
    (not_lt.mp (not_lt_of_contains hx hx')), rfl⟩

/-- Different floating-point numbers have different shortest decimals. -/
theorem eq_of_value_shortest_eq (h : Canonical m q) (h' : Canonical m' q')
    (hvalue : (shortest m q).value = (shortest m' q').value) : m = m' ∧ q = q' := by
  have hx' := rounds_shortest m' q'
  rw [← hvalue] at hx'
  exact eq_of_rounds h h' (rounds_shortest m q) hx'

end

end Decimal

end LoxLang
