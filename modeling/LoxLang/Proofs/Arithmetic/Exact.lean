import LoxLang.Proofs.Pieces

/-!
Whole numbers put together with signs, operators and parentheses, and their exact values.

A tree denotes a number by the rules of arithmetic on integers, which have no bound (`Denotes`).
Quotients are cut off toward zero, as the remainder tells (`IsQuotient`). A tree with a division by
zero denotes nothing; which division fails is told by the order in which they are carried out, the
operands before their operator and the left one first (`divisions`, `FirstByZero`).
-/

set_option autoImplicit false
set_option relaxedAutoImplicit false

namespace LoxLang

open Source

/-! ### Trees -/

/-- A natural number as it is written: some decimal digits, with any zeros in front, and not more of
them than can be read. -/
structure Arithmetic.Numeral where
  digits : List Char
  nonempty : digits ≠ []
  decimal : ∀ c ∈ digits, isDigit c = true
  short : digits.length ≤ Decimal.digitLimit

inductive Arithmetic.Operator
  | plus
  | minus
  | star
  | slash
  deriving DecidableEq, Repr

open Arithmetic (Numeral Operator)

/-- Parentheses that a tree has in any case. Those that it needs to be read are not part of it. -/
inductive Arithmetic
  | number (n : Numeral)
  | negation (a : Arithmetic)
  | operation (op : Operator) (a b : Arithmetic)
  | parentheses (a : Arithmetic)

namespace Arithmetic

variable {a b : Arithmetic} {op : Operator} {x y z : ℤ}

/-! ### Values -/

/-- The quotient of `x` by `y` is `q`, cut off toward zero: what remains is less than `y`, and it is
nothing or has the sign of `x`. -/
def IsQuotient (x y q : ℤ) : Prop :=
  ∃ r : ℤ, x = y * q + r ∧ r.natAbs < y.natAbs ∧ (r = 0 ∨ r.sign = x.sign)

def Operator.Gives : Operator → ℤ → ℤ → ℤ → Prop
  | plus, x, y, z => z = x + y
  | minus, x, y, z => z = x - y
  | star, x, y, z => z = x * y
  | slash, x, y, z => IsQuotient x y z

/-- The exact value of a tree. -/
inductive Denotes : Arithmetic → ℤ → Prop
  | number (n : Numeral) : Denotes (number n) (Piece.numberOf n.digits)
  | negation {a : Arithmetic} {x : ℤ} (ha : Denotes a x) : Denotes (negation a) (-x)
  | operation {op : Operator} {a b : Arithmetic} {x y z : ℤ} (ha : Denotes a x) (hb : Denotes b y)
    (h : op.Gives x y z) : Denotes (operation op a b) z
  | parentheses {a : Arithmetic} {x : ℤ} (ha : Denotes a x) : Denotes (parentheses a) x

theorem isQuotient_tdiv (x : ℤ) (hy : y ≠ 0) : IsQuotient x y (x.tdiv y) := by
  refine ⟨x.tmod y, (Int.mul_tdiv_add_tmod x y).symm, ?_, ?_⟩
  · rw [Int.natAbs_tmod]
    exact Nat.mod_lt _ (Int.natAbs_pos.mpr hy)
  · by_cases hdvd : y ∣ x
    · exact .inl (Int.tmod_eq_zero_of_dvd hdvd)
    · exact .inr (by rw [Int.sign_tmod, if_neg hdvd])

/-- Two remainders with the same sign differ by less than the divisor. -/
theorem IsQuotient.unique {q q' : ℤ} (h : IsQuotient x y q) (h' : IsQuotient x y q') : q = q' := by
  obtain ⟨r, hx, hlt, hsign⟩ := h
  obtain ⟨r', hx', hlt', hsign'⟩ := h'
  have hdifference : y * (q - q') = r' - r := by linarith
  have hside {s : ℤ} (hs : s = 0 ∨ s.sign = x.sign) : (0 ≤ x → 0 ≤ s) ∧ (x ≤ 0 → s ≤ 0) := by
    rcases hs with rfl | hs
    · simp
    · exact ⟨fun h ↦ Int.sign_nonneg_iff.mp (hs ▸ Int.sign_nonneg_iff.mpr h),
        fun h ↦ Int.sign_nonpos_iff.mp (hs ▸ Int.sign_nonpos_iff.mpr h)⟩
  have hclose : (r' - r).natAbs < y.natAbs := by
    rcases le_total 0 x with h | h
    · have hr := (hside hsign).1 h
      have hr' := (hside hsign').1 h
      omega
    · have hr := (hside hsign).2 h
      have hr' := (hside hsign').2 h
      omega
  have hzero : r' - r = 0 := Int.eq_zero_of_dvd_of_natAbs_lt_natAbs ⟨_, hdifference.symm⟩ hclose
  have hy : y ≠ 0 := by
    rintro rfl
    exact absurd hlt (Nat.not_lt_zero _)
  rw [hzero, mul_eq_zero, or_iff_right hy] at hdifference
  linarith

theorem Operator.Gives.unique {z' : ℤ} (h : op.Gives x y z) (h' : op.Gives x y z') : z = z' := by
  cases op with
  | plus | minus | star => exact h.trans h'.symm
  | slash => exact IsQuotient.unique h h'

/-- A tree has at most one value. -/
theorem Denotes.unique (h : a.Denotes x) (h' : a.Denotes y) : x = y := by
  induction h generalizing y with
  | number n =>
    cases h'
    rfl
  | negation _ ih =>
    cases h' with
    | negation ha => rw [ih ha]
  | operation _ _ h iha ihb =>
    cases h' with
    | operation ha hb h' =>
      obtain rfl := iha ha
      obtain rfl := ihb hb
      exact h.unique h'
  | parentheses _ ih =>
    cases h' with
    | parentheses ha => exact ih ha

/-! ### Divisions -/

def Operator.slashes : Operator → ℕ
  | slash => 1
  | plus | minus | star => 0

/-- The number of the divisions in a tree, each of which is written with a slash. -/
def slashes : Arithmetic → ℕ
  | number _ => 0
  | negation a => a.slashes
  | operation op a b => a.slashes + op.slashes + b.slashes
  | parentheses a => a.slashes

/-- A division, with the number of the slashes to the left of its own. -/
structure Division where
  slash : ℕ
  divisor : Arithmetic

/-- The divisions of a tree in the order in which they are carried out. To the left of the tree
there are `k` slashes. -/
def divisions : Arithmetic → ℕ → List Division
  | number _, _ => []
  | negation a, k => a.divisions k
  | operation op a b, k =>
    a.divisions k ++ (b.divisions (k + a.slashes + op.slashes) ++
      if op = .slash then [⟨k + a.slashes, b⟩] else [])
  | parentheses a, k => a.divisions k

def Division.ByZero (d : Division) : Prop :=
  d.divisor.Denotes 0

/-- The first of the divisions that is one by zero. -/
def FirstByZero (ds : List Division) (d : Division) : Prop :=
  ∃ front back, ds = front ++ d :: back ∧ d.ByZero ∧ ∀ e ∈ front, ¬ e.ByZero

variable {ds es : List Division} {d : Division}

theorem FirstByZero.mem (h : FirstByZero ds d) : d ∈ ds ∧ d.ByZero := by
  obtain ⟨front, back, rfl, hzero, -⟩ := h
  exact ⟨List.mem_append_right front List.mem_cons_self, hzero⟩

theorem firstByZero_singleton (h : d.ByZero) : FirstByZero [d] d :=
  ⟨[], [], rfl, h, by simp⟩

theorem FirstByZero.append (h : FirstByZero ds d) (es : List Division) :
    FirstByZero (ds ++ es) d := by
  obtain ⟨front, back, rfl, hzero, hfront⟩ := h
  exact ⟨front, back ++ es, by simp, hzero, hfront⟩

theorem FirstByZero.after (h : FirstByZero es d) (hds : ∀ e ∈ ds, ¬ e.ByZero) :
    FirstByZero (ds ++ es) d := by
  obtain ⟨front, back, rfl, hzero, hfront⟩ := h
  exact ⟨ds ++ front, back, by simp, hzero, List.forall_mem_append.mpr ⟨hds, hfront⟩⟩

end Arithmetic

end LoxLang
