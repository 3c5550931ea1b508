import LoxLang.Proofs.Decimal.Rounding

/-!
The shortest decimal of a floating-point number lies on the widest grid.

On a grid of which a point rounds to the number, one is found (`exists_nearest?`). The grids are
searched from the widest one on, and of fractions one of them is always wide enough
(`exists_nearest?_of_fraction`). So the last digit of a fraction is not zero
(`digits_shortest_mod_ten_ne_zero`), and the decimal is whole exactly if the number is
(`scale_shortest_nonneg_iff`).
-/

set_option autoImplicit false
set_option relaxedAutoImplicit false

namespace LoxLang.Decimal

/-! ### Powers of two and of ten -/

theorem ten_pow_le_two_pow (n : ℕ) : 10 ^ (31 * n / 103) ≤ 2 ^ n := by
  have hsmall : ∀ b < 103, 10 ^ (31 * b / 103) ≤ 2 ^ b := by decide +kernel
  have hexponent : 31 * n / 103 = 31 * (n / 103) + 31 * (n % 103) / 103 := by omega
  calc 10 ^ (31 * n / 103)
      = (10 ^ 31) ^ (n / 103) * 10 ^ (31 * (n % 103) / 103) := by
        rw [hexponent, pow_add, pow_mul]
    _ ≤ (2 ^ 103) ^ (n / 103) * 2 ^ (n % 103) :=
        Nat.mul_le_mul (Nat.pow_le_pow_left (by norm_num) _) (hsmall _ (Nat.mod_lt _ (by norm_num)))
    _ = 2 ^ n := by rw [← pow_mul, ← pow_add, Nat.div_add_mod]

theorem two_pow_le_ten_pow (n : ℕ) : 2 ^ n ≤ 10 ^ (28 * n / 93 + 1) := by
  have hsmall : ∀ b < 93, 2 ^ b ≤ 10 ^ (28 * b / 93 + 1) := by decide +kernel
  have hexponent : 28 * n / 93 + 1 = 28 * (n / 93) + (28 * (n % 93) / 93 + 1) := by omega
  calc 2 ^ n = (2 ^ 93) ^ (n / 93) * 2 ^ (n % 93) := by rw [← pow_mul, ← pow_add, Nat.div_add_mod]
    _ ≤ (10 ^ 28) ^ (n / 93) * 10 ^ (28 * (n % 93) / 93 + 1) :=
        Nat.mul_le_mul (Nat.pow_le_pow_left (by norm_num) _) (hsmall _ (Nat.mod_lt _ (by norm_num)))
    _ = 10 ^ (28 * n / 93 + 1) := by rw [hexponent, pow_add 10 (28 * (n / 93)), pow_mul]

theorem two_zpow_neg_le {n : ℕ} {k : ℤ} (h : -(31 * n / 103 : ℕ) ≤ k) :
    (2 : ℚ) ^ (-n : ℤ) ≤ 10 ^ k := by
  have hpow : (10 : ℚ) ^ (31 * n / 103) ≤ 2 ^ n := by exact_mod_cast ten_pow_le_two_pow n
  calc (2 : ℚ) ^ (-n : ℤ) = (2 ^ n)⁻¹ := by rw [zpow_neg, zpow_natCast]
    _ ≤ (10 ^ (31 * n / 103))⁻¹ := inv_anti₀ (by positivity) hpow
    _ = 10 ^ (-(31 * n / 103 : ℕ) : ℤ) := by rw [zpow_neg, zpow_natCast]
    _ ≤ 10 ^ k := zpow_le_zpow_right₀ (by norm_num) h

theorem ten_zpow_le {n : ℕ} {k : ℤ} (h : k ≤ -(28 * n / 93 + 1 : ℕ)) :
    (10 : ℚ) ^ k ≤ 2 ^ (-n : ℤ) := by
  have hpow : (2 : ℚ) ^ n ≤ 10 ^ (28 * n / 93 + 1) := by exact_mod_cast two_pow_le_ten_pow n
  calc (10 : ℚ) ^ k ≤ 10 ^ (-(28 * n / 93 + 1 : ℕ) : ℤ) := zpow_le_zpow_right₀ (by norm_num) h
    _ = (10 ^ (28 * n / 93 + 1))⁻¹ := by rw [zpow_neg, zpow_natCast]
    _ ≤ (2 ^ n)⁻¹ := inv_anti₀ (by positivity) hpow
    _ = 2 ^ (-n : ℤ) := by rw [zpow_neg, zpow_natCast]

/-! ### The range of a number -/

namespace RoundingRange

theorem Contains.of_between {r : RoundingRange} {x y z : ℚ} (hx : r.Contains x) (hy : r.Contains y)
    (hxz : x ≤ z) (hzy : z ≤ y) : r.Contains z :=
  ⟨hx.lower.trans hxz, hzy.trans hy.upper,
    fun h ↦ ⟨(hx.inside h).1.trans_le hxz, hzy.trans_lt (hy.inside h).2⟩⟩

/-- A grid point in the range rounds to the value. -/
theorem holds_of_contains {r : RoundingRange} {k : ℤ} {c : ℕ}
    (h : r.Contains (Decimal.value ⟨c, k⟩)) : r.holds k c = true := by
  unfold holds
  dsimp only
  split
  · simp only [Bool.and_eq_true, decide_eq_true_eq]
    exact ⟨(r.onGrid_le_iff k r.lower c).mpr h.lower, (r.le_onGrid_iff k r.upper c).mpr h.upper⟩
  · next hopen =>
    obtain ⟨hlower, hupper⟩ := h.inside (by simpa using hopen)
    simp only [Bool.and_eq_true, decide_eq_true_eq]
    refine ⟨not_le.mp fun hle ↦ ?_, not_le.mp fun hle ↦ ?_⟩
    · exact absurd ((r.le_onGrid_iff k r.lower c).mp hle) (not_le.mpr hlower)
    · exact absurd ((r.onGrid_le_iff k r.upper c).mp hle) (not_le.mpr hupper)

end RoundingRange

section

variable {m : ℕ} {q k : ℤ} {x : ℚ}

theorem value_of (m : ℕ) (q : ℤ) :
    ((RoundingRange.of m q).value * 2 ^ (RoundingRange.of m q).exponent : ℚ) = m * 2 ^ q := by
  show ((4 * m : ℕ) * 2 ^ (q - 2) : ℚ) = m * 2 ^ q
  rw [zpow_sub₀ two_ne_zero]
  push_cast
  ring

theorem pos_of_contains (hm : 0 < m) (h : (RoundingRange.of m q).Contains x) : 0 < x := by
  obtain ⟨hlower, -, -⟩ := lower_of m q
  have hpos : 0 < (RoundingRange.of m q).lower := by omega
  have hends : (0 : ℚ) < (RoundingRange.of m q).lower * 2 ^ (RoundingRange.of m q).exponent :=
    mul_pos (by exact_mod_cast hpos) (by positivity)
  exact hends.trans_le h.lower

/-- The range ends before the next power of two. -/
theorem lt_of_contains (h : (RoundingRange.of m q).Contains x) : x < 2 ^ (m.log2 + 1 + q : ℤ) := by
  have hmantissa : 4 * m + 2 < 2 ^ (m.log2 + 1) * 4 := by
    have hlog := @Nat.lt_log2_self m
    omega
  calc x ≤ (4 * m + 2 : ℕ) * 2 ^ (q - 2) := h.upper
    _ < (2 ^ (m.log2 + 1) * 4 : ℕ) * 2 ^ (q - 2) :=
        mul_lt_mul_of_pos_right (by exact_mod_cast hmantissa) (by positivity)
    _ = 2 ^ (m.log2 + 1) * 2 ^ q := by
        rw [zpow_sub₀ two_ne_zero]
        push_cast
        ring
    _ = 2 ^ (m.log2 + 1 + q : ℤ) := by
        rw [zpow_add₀ two_ne_zero, ← zpow_natCast]
        push_cast
        rfl

/-! ### Finding a point -/

/-- The last grid point that is not above the number. -/
def below (m : ℕ) (q k : ℤ) : ℕ :=
  (RoundingRange.of m q).onGrid k (RoundingRange.of m q).value / (RoundingRange.of m q).spacing k

theorem value_below (m : ℕ) (q k : ℤ) :
    value ⟨below m q k, k⟩ ≤ m * 2 ^ q ∧ (m * 2 ^ q : ℚ) < value ⟨below m q k + 1, k⟩ := by
  rw [← value_of m q]
  constructor
  · exact ((RoundingRange.of m q).le_onGrid_iff k _ _).mp (Nat.div_mul_le_self _ _)
  · have hspacing : 0 < (RoundingRange.of m q).spacing k := by
      unfold RoundingRange.spacing
      simp only [Nat.pow_eq]
      positivity
    have hlt := Nat.lt_mul_div_succ
      ((RoundingRange.of m q).onGrid k (RoundingRange.of m q).value) hspacing
    rw [Nat.mul_comm] at hlt
    exact not_le.mp fun hle ↦
      absurd (((RoundingRange.of m q).le_onGrid_iff k _ _).mpr hle) (not_le.mpr hlt)

/-- On a grid with a point that rounds to the number, such a point is found. -/
theorem exists_nearest? {c : ℕ} (h : (RoundingRange.of m q).Contains (value ⟨c, k⟩)) :
    ∃ c', (RoundingRange.of m q).nearest? k = some c' := by
  have hvalue := contains_value m q
  obtain ⟨hle, hlt⟩ := value_below m q k
  have hmono : ∀ {a b : ℕ}, a ≤ b → value ⟨a, k⟩ ≤ value ⟨b, k⟩ := fun hab ↦
    mul_le_mul_of_nonneg_right (by exact_mod_cast hab) (by positivity)
  have hholds : (RoundingRange.of m q).holds k (below m q k) = true ∨
      (RoundingRange.of m q).holds k (below m q k + 1) = true := by
    rcases Nat.lt_or_ge (below m q k) c with hc | hc
    · exact .inr (RoundingRange.holds_of_contains (hvalue.of_between h hlt.le (hmono hc)))
    · exact .inl (RoundingRange.holds_of_contains (h.of_between hvalue (hmono hc) hle))
  unfold RoundingRange.nearest?
  dsimp only
  rw [← below]
  cases hbelow : (RoundingRange.of m q).holds k (below m q k) <;>
    cases habove : (RoundingRange.of m q).holds k (below m q k + 1)
  · simp [hbelow, habove] at hholds
  · exact ⟨_, rfl⟩
  · exact ⟨_, rfl⟩
  · dsimp only
    split_ifs <;> exact ⟨_, rfl⟩

/-! ### The search -/

theorem findSome?_range {α : Type} (f : ℕ → Option α) (n : ℕ) :
    (∃ i < n, ∃ a, (List.range n).findSome? f = some a ∧ f i = some a ∧ ∀ j < i, f j = none) ∨
      (List.range n).findSome? f = none ∧ ∀ i < n, f i = none := by
  induction n with
  | zero => exact .inr ⟨rfl, nofun⟩
  | succ n ih =>
    rw [List.range_succ, List.findSome?_append, List.findSome?_singleton]
    rcases ih with ⟨i, hi, a, hfound, hfi, hbefore⟩ | ⟨hnone, hbefore⟩
    · exact .inl ⟨i, by omega, a, by rw [hfound, Option.some_or], hfi, hbefore⟩
    · rw [hnone, Option.none_or]
      cases hfn : f n with
      | some a => exact .inl ⟨n, by omega, a, rfl, hfn, hbefore⟩
      | none =>
        refine .inr ⟨rfl, fun i hi ↦ ?_⟩
        rcases Nat.lt_succ_iff_lt_or_eq.mp hi with hi | rfl
        · exact hbefore i hi
        · exact hfn

/-- The shortest decimal is on the first of thirty grids with a point that rounds to the number, or
exact if there is none. -/
theorem shortest_cases (hm : 0 < m) :
    (∃ i : ℕ, i < 30 ∧ ∃ c, shortest m q = ⟨c, scaleAbove m q - i⟩ ∧ ∀ j : ℕ, j < i →
      ∀ c', ¬ (RoundingRange.of m q).Contains (value ⟨c', scaleAbove m q - j⟩)) ∨
    shortest m q = exact m q ∧ ∀ i : ℕ, i < 30 →
      ∀ c, ¬ (RoundingRange.of m q).Contains (value ⟨c, scaleAbove m q - i⟩) := by
  have hempty : ∀ i : ℕ, ((RoundingRange.of m q).nearest? (scaleAbove m q - i)).map
        (Decimal.mk · (scaleAbove m q - i)) = none →
      ∀ c, ¬ (RoundingRange.of m q).Contains (value ⟨c, scaleAbove m q - i⟩) := by
    intro i hnone c hcontains
    obtain ⟨c', hc'⟩ := exists_nearest? hcontains
    rw [hc'] at hnone
    cases hnone
  have hshortest : shortest m q = ((List.range 30).findSome? fun (i : ℕ) ↦
      ((RoundingRange.of m q).nearest? (scaleAbove m q - i)).map
        (Decimal.mk · (scaleAbove m q - i))).getD (exact m q) := by
    unfold shortest
    dsimp only
    rw [if_neg (by omega)]
  rcases findSome?_range (fun (i : ℕ) ↦ ((RoundingRange.of m q).nearest? (scaleAbove m q - i)).map
    (Decimal.mk · (scaleAbove m q - i))) 30 with ⟨i, hi, d, hfound, hd, hbefore⟩ | ⟨hnone, hall⟩
  · obtain ⟨c, -, rfl⟩ := Option.map_eq_some_iff.mp hd
    refine .inl ⟨i, hi, c, ?_, fun j hj ↦ hempty j (hbefore j hj)⟩
    rw [hshortest, hfound, Option.getD_some]
  · refine .inr ⟨?_, fun i hi ↦ hempty i (hall i hi)⟩
    rw [hshortest, hnone, Option.getD_none]

theorem Canonical.log2_le (h : Canonical m q) (hm : 0 < m) : m.log2 ≤ 52 :=
  Nat.lt_succ_iff.mp ((Nat.log2_lt hm.ne').mpr h.mantissa)

/-- Of a number with binary places, the narrowest grid of the search has a point that rounds to it. -/
theorem exists_contains_of_fraction (h : Canonical m q) (hm : 0 < m) (hq : q < 0) :
    ∃ c, (RoundingRange.of m q).Contains (value ⟨c, scaleAbove m q - (29 : ℕ)⟩) := by
  -- The last point that is not above the number lies less than one step below it.
  refine ⟨below m q (scaleAbove m q - (29 : ℕ)), ?_⟩
  set k := scaleAbove m q - (29 : ℕ) with hk
  have hexponent := h.exponent
  have hleast : Double.leastExponent = -1074 := rfl
  have hlog := h.log2_le hm
  have hnarrow : (10 : ℚ) ^ k ≤ 2 ^ (q - 2) := by
    obtain ⟨n, hn⟩ : ∃ n : ℕ, q - 2 = -n := ⟨(2 - q).toNat, by omega⟩
    rw [hn]
    refine ten_zpow_le ?_
    unfold scaleAbove at hk
    omega
  obtain ⟨hle, hlt⟩ := value_below m q k
  have hstep : value ⟨below m q k + 1, k⟩ = value ⟨below m q k, k⟩ + 10 ^ k := by
    rw [value, value]
    push_cast
    ring
  have hvalue := contains_value m q
  have hlower : ((RoundingRange.of m q).lower * 2 ^ (RoundingRange.of m q).exponent : ℚ) <
      value ⟨below m q k, k⟩ := by
    obtain ⟨-, -, hstrict⟩ := lower_of m q
    have hone : ((RoundingRange.of m q).lower + 1 : ℚ) ≤ (4 * m : ℕ) := by
      exact_mod_cast hstrict hm
    have hpos : (0 : ℚ) < 2 ^ (q - 2) := by positivity
    have hscaled : ((RoundingRange.of m q).lower + 1 : ℚ) * 2 ^ (q - 2) ≤ m * 2 ^ q := by
      rw [← value_of m q]
      exact mul_le_mul_of_nonneg_right hone hpos.le
    show ((RoundingRange.of m q).lower * 2 ^ (q - 2) : ℚ) < value ⟨below m q k, k⟩
    linarith
  exact ⟨hlower.le, hle.trans hvalue.upper, fun hopen ↦
    ⟨hlower, hle.trans_lt (hvalue.inside hopen).2⟩⟩

theorem digits_shortest_pos (hm : 0 < m) : 0 < (shortest m q).digits := by
  have hvalue := pos_of_contains hm (rounds_shortest m q)
  by_contra hzero
  rw [value, Nat.eq_zero_of_not_pos hzero, Nat.cast_zero, zero_mul] at hvalue
  exact lt_irrefl 0 hvalue

/-- A decimal with places is found by the search. -/
theorem exists_of_scale_neg (h : Canonical m q) (hm : 0 < m) (hscale : (shortest m q).scale < 0) :
    ∃ i : ℕ, i < 30 ∧ (shortest m q).scale = scaleAbove m q - i ∧ ∀ j : ℕ, j < i →
      ∀ c, ¬ (RoundingRange.of m q).Contains (value ⟨c, scaleAbove m q - j⟩) := by
  rcases @shortest_cases m q hm with ⟨i, hi, c, hfound, hbefore⟩ | ⟨hexact, hnone⟩
  · exact ⟨i, hi, by rw [hfound], hbefore⟩
  · have hq : q < 0 := by
      by_contra hq
      rw [hexact, exact, if_pos (by omega)] at hscale
      exact lt_irrefl 0 hscale
    obtain ⟨c, hcontains⟩ := exists_contains_of_fraction h hm hq
    exact absurd hcontains (hnone 29 (by norm_num) c)

/-- The last place of a decimal is not zero. -/
theorem digits_shortest_mod_ten_ne_zero (h : Canonical m q) (hm : 0 < m)
    (hscale : (shortest m q).scale < 0) : (shortest m q).digits % 10 ≠ 0 := by
  intro hzero
  obtain ⟨i, hi, hgrid, hbefore⟩ := exists_of_scale_neg h hm hscale
  have hcontains := rounds_shortest m q
  have hdigits := @digits_shortest_pos m q hm
  generalize shortest m q = d at *
  obtain ⟨digits, scale⟩ := d
  dsimp only at *
  obtain ⟨c, rfl⟩ : ∃ c, digits = c * 10 := ⟨digits / 10, by omega⟩
  have hwider : value ⟨c * 10, scale⟩ = value ⟨c, scale + 1⟩ := by
    rw [value, value, zpow_add_one₀ (by norm_num)]
    push_cast
    ring
  rw [hwider] at hcontains
  cases i with
  | succ i =>
    refine hbefore i (by omega) c ?_
    rwa [show scaleAbove m q - i = scale + 1 by omega]
  | zero =>
    -- There is no wider grid in the search, but the number is less than ten of its steps.
    have hexponent := h.exponent
    have hleast : Double.leastExponent = -1074 := rfl
    have habove : (2 : ℚ) ^ (m.log2 + 1 + q : ℤ) ≤ 10 ^ (scale + 1) := by
      obtain ⟨n, hn⟩ : ∃ n : ℕ, (m.log2 + 1 + q : ℤ) = -n := by
        refine ⟨(-(m.log2 + 1 + q)).toNat, ?_⟩
        unfold scaleAbove at hgrid
        omega
      rw [hn]
      refine two_zpow_neg_le ?_
      unfold scaleAbove at hgrid
      omega
    have hone : (10 : ℚ) ^ (scale + 1) ≤ value ⟨c, scale + 1⟩ :=
      le_mul_of_one_le_left (by positivity) (by exact_mod_cast show 1 ≤ c by omega)
    exact absurd (lt_of_contains hcontains) (not_lt.mpr (habove.trans hone))

/-! ### Whole numbers -/

theorem value_of_scale_nonneg {d : Decimal} (h : 0 ≤ d.scale) :
    d.value = (d.digits * 10 ^ d.scale.toNat : ℕ) := by
  have hscale : (10 : ℚ) ^ d.scale = 10 ^ d.scale.toNat := by
    rw [← zpow_natCast, Int.toNat_of_nonneg h]
  rw [value, hscale]
  push_cast
  rfl

/-- A whole number that rounds to a number is the number. -/
theorem eq_of_contains_whole {n : ℕ} (hq : q < 0) (h : (RoundingRange.of m q).Contains n) :
    (m * 2 ^ q : ℚ) = n := by
  obtain ⟨p, hp⟩ : ∃ p : ℕ, q = -p := ⟨(-q).toNat, by omega⟩
  have hpow : (2 : ℚ) ^ q * 2 ^ p = 1 := by
    rw [hp, ← zpow_natCast, ← zpow_add₀ two_ne_zero, neg_add_cancel, zpow_zero]
  have hpos : (0 : ℚ) < 2 ^ (q - 2) := by positivity
  have hunits : (n : ℚ) = (4 * (n * 2 ^ p) : ℕ) * 2 ^ (q - 2) := by
    rw [zpow_sub₀ two_ne_zero]
    push_cast
    linear_combination -(n : ℚ) * hpow
  have hlower := h.lower
  have hupper := h.upper
  rw [hunits] at hlower hupper
  have hlower : (RoundingRange.of m q).lower ≤ 4 * (n * 2 ^ p) := by
    exact_mod_cast le_of_mul_le_mul_right hlower hpos
  have hupper : 4 * (n * 2 ^ p) ≤ 4 * m + 2 := by
    exact_mod_cast le_of_mul_le_mul_right hupper hpos
  obtain ⟨hends, -, -⟩ := lower_of m q
  obtain rfl : n * 2 ^ p = m := by omega
  push_cast
  linear_combination (n : ℚ) * hpow

/-- The decimal of a number is whole exactly if the number is. -/
theorem scale_shortest_nonneg_iff (h : Canonical m q) :
    0 ≤ (shortest m q).scale ↔ ∃ n : ℕ, (m * 2 ^ q : ℚ) = n := by
  rcases Nat.eq_zero_or_pos m with rfl | hm
  · exact ⟨fun _ ↦ ⟨0, by simp⟩, fun _ ↦ le_rfl⟩
  constructor
  · intro hscale
    have hcontains := rounds_shortest m q
    rw [value_of_scale_nonneg hscale] at hcontains
    rcases lt_or_ge q 0 with hq | hq
    · exact ⟨_, eq_of_contains_whole hq hcontains⟩
    · refine ⟨m * 2 ^ q.toNat, ?_⟩
      push_cast
      rw [← zpow_natCast, Int.toNat_of_nonneg hq]
  · rintro ⟨n, hn⟩
    by_contra hscale
    obtain ⟨i, -, hgrid, hbefore⟩ := exists_of_scale_neg h hm (not_le.mp hscale)
    have hcontains := contains_value m q
    have hone : (2 : ℚ) ^ (0 : ℤ) ≤ m * 2 ^ q := by
      have hpos := pos_of_contains hm hcontains
      rw [hn] at hpos ⊢
      rw [zpow_zero]
      exact_mod_cast hpos
    have hlog : (0 : ℤ) < m.log2 + 1 + q :=
      (zpow_lt_zpow_iff_right₀ one_lt_two).mp (hone.trans_lt (lt_of_contains hcontains))
    have habove : 0 ≤ scaleAbove m q := by
      unfold scaleAbove
      omega
    -- The grid of the whole numbers was searched before, and the number itself is on it.
    refine hbefore (scaleAbove m q).toNat (by omega) n ?_
    rwa [Int.toNat_of_nonneg habove, sub_self, value, zpow_zero, mul_one, ← hn]

theorem length_toDigits_add_le {digits zeros k : ℕ} (hpos : 0 < digits)
    (h : digits * 10 ^ zeros < 10 ^ k) : (Nat.toDigits 10 digits).length + zeros ≤ k := by
  have hzeros : zeros < k := by
    have hpow := (Nat.le_mul_of_pos_left (10 ^ zeros) hpos).trans_lt h
    exact (Nat.pow_lt_pow_iff_right (by norm_num)).mp hpow
  have hcount : digits < 10 ^ (k - zeros) := by
    refine Nat.lt_of_mul_lt_mul_right (a := 10 ^ zeros) ?_
    rwa [← pow_add, Nat.sub_add_cancel hzeros.le]
  have hlength := (Nat.length_toDigits_le_iff (by norm_num) (by omega)).mpr hcount
  omega

/-- A whole number has at most 309 digits. -/
theorem length_shortest_le (h : Canonical m q) (hq : q ≤ 971) (hscale : 0 ≤ (shortest m q).scale) :
    (Nat.toDigits 10 (shortest m q).digits).length + (shortest m q).scale.toNat ≤ 309 := by
  rcases Nat.eq_zero_or_pos m with rfl | hm
  · show (Nat.toDigits 10 0).length + 0 ≤ 309
    decide
  have hlog := h.log2_le hm
  have hbelow := lt_of_contains (rounds_shortest m q)
  rw [value_of_scale_nonneg hscale] at hbelow
  have hpower : (2 : ℚ) ^ (m.log2 + 1 + q : ℤ) ≤ 2 ^ (1024 : ℤ) :=
    zpow_le_zpow_right₀ one_le_two (by omega)
  have hnat : (shortest m q).digits * 10 ^ (shortest m q).scale.toNat < 2 ^ 1024 := by
    exact_mod_cast hbelow.trans_le hpower
  have hlength :=
    length_toDigits_add_le (digits_shortest_pos hm) (hnat.trans_le (two_pow_le_ten_pow 1024))
  exact hlength.trans (by norm_num)

end

end LoxLang.Decimal
