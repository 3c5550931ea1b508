import LoxLang.Decimal.Double
import Mathlib.Algebra.Order.Ring.Nat
import Mathlib.Tactic.SplitIfs

/-!
Floating-point numbers without a sign.

Among the bit patterns these come first, up to the one of positive infinity (`Unsigned`). A numeral
denotes one of them (`unsigned_ofScientific`), and each is fixed by the number that it stands for
(`eq_of_ofFloat_eq`).
-/

set_option autoImplicit false
set_option relaxedAutoImplicit false

namespace LoxLang.Decimal

open Float.Model (Format UnpackedFloat)
open Float.Model.UnpackedFloat

/-- The bit pattern of positive infinity. -/
def infinityBits : Nat := 2047 * 2 ^ 52

/-- Not negative, and a number or positive infinity. -/
def Unsigned (x : Float) : Prop :=
  x.toBits.toNat ≤ infinityBits

/-! ### Unpacked numbers without a sign -/

inductive Positive : UnpackedFloat → Prop
  | infinity : Positive (.infinity .positive)
  | zero : Positive (.zero .positive)
  | finite {m : Nat} {e : Int} {h : 0 < m} : Positive (.finite .positive m e h)

theorem positive_roundWithAccuracy (spec : Format) (m : Nat) (e : Int) (accuracy : Accuracy) :
    Positive (roundWithAccuracy spec .positive m e accuracy) := by
  unfold roundWithAccuracy
  generalize shiftToTargetExponent spec m e accuracy = shifted
  obtain ⟨em, e₁⟩ := shifted
  dsimp only
  generalize shiftToTargetExponent spec em.roundedMantissa e₁ .exact = final
  by_cases hzero : final.1.mantissa = 0
  · rw [dif_pos hzero]
    exact .zero
  · rw [dif_neg hzero]
    exact .finite

theorem positive_ofNat (spec : Format) (n : Nat) : Positive (ofNat spec n) := by
  unfold ofNat ofInt UnpackedFloat.normalize
  split
  · next h =>
    have hlt : (n : Int) < 0 := compare_lt_iff_lt.mp h
    omega
  · exact .zero
  · exact positive_roundWithAccuracy ..

/-- A quotient by a positive finite number. -/
theorem Positive.div {spec : Format} {f : UnpackedFloat} (hf : Positive f) {m : Nat} {e : Int}
    {h : 0 < m} : Positive (UnpackedFloat.div spec f (.finite .positive m e h)) := by
  cases hf with
  | infinity => exact .infinity
  | zero => exact .zero
  | finite => exact positive_roundWithAccuracy ..

/-! ### Packing and unpacking -/

theorem toNat_packComponents (e : BitVec 11) (m : BitVec 52) :
    (packComponents Format.binary64 .positive e m).toNat = e.toNat * 2 ^ 52 + m.toNat := by
  have hm := m.isLt
  show ((0#1 ++ e) ++ m).toNat = _
  rw [BitVec.toNat_append, BitVec.toNat_append, ← Nat.shiftLeft_add_eq_or_of_lt hm]
  simp [Nat.shiftLeft_eq]

theorem toNat_pack_le {f : UnpackedFloat} (hf : Positive f) :
    (pack Format.binary64 f).toNat ≤ infinityBits := by
  have hcomponents (e : BitVec 11) (m : BitVec 52) (he : e.toNat < 2047) :
      (packComponents Format.binary64 .positive e m).toNat ≤ infinityBits := by
    have hm := m.isLt
    rw [toNat_packComponents]
    unfold infinityBits
    omega
  cases hf with
  | infinity => decide
  | zero => decide
  | @finite m e h =>
    unfold pack
    dsimp only
    split
    · decide
    · next hbiased =>
      split
      · refine hcomponents _ _ (lt_of_le_of_lt (Nat.mod_le _ _) ?_)
        simpa using hbiased
      · exact hcomponents _ _ (by decide)

theorem toNat_unpackSign (b : BitVec 64) :
    (@unpackSign Format.binary64 b).toNat = b.toNat / 2 ^ 63 % 2 := by
  show (b.toNat >>> 63) % 2 ^ 1 = _
  rw [Nat.shiftRight_eq_div_pow, pow_one]

theorem toNat_unpackExponent (b : BitVec 64) :
    (@unpackExponent Format.binary64 b).toNat = b.toNat / 2 ^ 52 % 2 ^ 11 := by
  show (b.toNat >>> 52) % 2 ^ 11 = _
  rw [Nat.shiftRight_eq_div_pow]

theorem toNat_unpackMantissa (b : BitVec 64) :
    (@unpackMantissa Format.binary64 b).toNat = b.toNat % 2 ^ 52 := by
  show (b.toNat >>> 0) % 2 ^ 52 = _
  rw [Nat.shiftRight_zero]

/-- A bit pattern up to the one of positive infinity has no sign and is a number. -/
theorem positive_unpack {b : BitVec 64} (h : b.toNat ≤ infinityBits) :
    Positive (unpack Format.binary64 b) := by
  unfold infinityBits at h
  have hsign : @unpackSign Format.binary64 b = 0#1 := by
    apply BitVec.eq_of_toNat_eq
    rw [toNat_unpackSign, Nat.div_eq_of_lt (by omega)]
    rfl
  have hnumber (hexponent : @unpackExponent Format.binary64 b = -1#11) :
      @unpackMantissa Format.binary64 b = 0#52 := by
    have htoNat := congrArg BitVec.toNat hexponent
    rw [toNat_unpackExponent] at htoNat
    change b.toNat / 2 ^ 52 % 2 ^ 11 = 2047 at htoNat
    apply BitVec.eq_of_toNat_eq
    rw [toNat_unpackMantissa]
    show b.toNat % 2 ^ 52 = 0
    omega
  unfold unpack
  dsimp only
  rw [hsign]
  by_cases hexponent : @unpackExponent Format.binary64 b = -1#11
  · rw [if_pos hexponent, if_pos (hnumber hexponent)]
    exact .infinity
  · rw [if_neg hexponent]
    refine iteInduction (fun _ ↦ ?_) fun _ ↦ .finite
    by_cases hzero : @unpackMantissa Format.binary64 b = 0#52
    · rw [dif_pos hzero]
      exact .zero
    · rw [dif_neg hzero]
      exact .finite

/-! ### Numerals -/

theorem unsigned_ofModel_pack {f : UnpackedFloat} (hf : Positive f) :
    Unsigned (.ofModel (.pack f)) :=
  toNat_pack_le hf

def isPositiveFinite : UnpackedFloat → Bool
  | .finite .positive _ _ _ => true
  | _ => false

theorem isPositiveFinite_powersOfTen : ∀ k : Fin 23,
    isPositiveFinite (Float.exactlyRepresentablePowersOfTen[k]).toModel.unpack = true := by
  decide +kernel

theorem unsigned_div {x y : Float} (hx : Unsigned x)
    (hy : isPositiveFinite y.toModel.unpack = true) : Unsigned (x / y) := by
  have hpositive : Positive x.toModel.unpack := positive_unpack hx
  have hquotient : Positive (UnpackedFloat.div Format.binary64 x.toModel.unpack
      y.toModel.unpack) := by
    generalize y.toModel.unpack = divisor at hy
    cases divisor with
    | finite sign m e h =>
      cases sign with
      | positive => exact hpositive.div
      | negative => cases hy
    | _ => cases hy
  exact unsigned_ofModel_pack hquotient

theorem positive_ofScientific (n : Nat) (k : Nat) :
    Positive (UnpackedFloat.ofScientific Format.binary64 n (Int.negOfNat k)) := by
  unfold UnpackedFloat.ofScientific
  by_cases hn : n = 0
  · rw [dif_pos hn]
    exact .zero
  · rw [dif_neg hn]
    refine iteInduction (fun _ ↦ .infinity) fun _ ↦ ?_
    refine iteInduction (fun _ ↦ .zero) fun _ ↦ ?_
    refine iteInduction (fun _ ↦ ?_) fun _ ↦ ?_
    · exact positive_roundWithAccuracy ..
    · exact Positive.finite.div

/-- A numeral denotes a number without a sign. -/
theorem unsigned_ofScientific (n k : Nat) : Unsigned (Float.ofScientific n true k) := by
  unfold Float.ofScientific
  split
  · next h =>
    have hwhole : Unsigned n.toUInt64.toFloat := unsigned_ofModel_pack (positive_ofNat _ _)
    exact unsigned_div hwhole (isPositiveFinite_powersOfTen ⟨k, by omega⟩)
  · exact unsigned_ofModel_pack (positive_ofScientific n k)

/-! ### The numbers that they stand for -/

/-- A mantissa and an exponent as every number without a sign has them. -/
structure Canonical (m : Nat) (q : Int) : Prop where
  mantissa : m < 2 ^ 53
  exponent : Double.leastExponent ≤ q
  normal : q = Double.leastExponent ∨ 2 ^ 52 ≤ m

theorem ofFloat_eq {x : Float} (h : Unsigned x) : Double.ofFloat x =
    if x.toBits.toNat / 2 ^ 52 = 2047 then .infinite false
    else if x.toBits.toNat / 2 ^ 52 = 0 then
      .finite false (x.toBits.toNat % 2 ^ 52) Double.leastExponent
    else .finite false (2 ^ 52 + x.toBits.toNat % 2 ^ 52)
      (((x.toBits.toNat / 2 ^ 52 : Nat) : Int) - 1 + Double.leastExponent) := by
  unfold Unsigned infinityBits at h
  have hpow63 : Nat.pow 2 63 = 2 ^ 63 := rfl
  have hpow52 : Nat.pow 2 52 = 2 ^ 52 := rfl
  have hsign : decide (2 ^ 63 ≤ x.toBits.toNat) = false := decide_eq_false (by omega)
  have hbiased : x.toBits.toNat / 2 ^ 52 % Nat.pow 2 11 = x.toBits.toNat / 2 ^ 52 :=
    Nat.mod_eq_of_lt (show x.toBits.toNat / 2 ^ 52 < 2 ^ 11 by omega)
  unfold Double.ofFloat
  simp only [hpow63, hpow52, hsign, hbiased]
  split
  · next hinfinite =>
    rw [if_pos (by omega)]
  · rfl

/-- A number without a sign is finite or positive infinity. -/
theorem ofFloat_cases {x : Float} (h : Unsigned x) : Double.ofFloat x = .infinite false ∨
    ∃ m q, Double.ofFloat x = .finite false m q ∧ Canonical m q := by
  have hbits := h
  unfold Unsigned infinityBits at hbits
  have hleast : Double.leastExponent = -1074 := rfl
  rw [ofFloat_eq h]
  split
  · exact .inl rfl
  · split
    · exact .inr ⟨_, _, rfl, by omega, le_rfl, .inl rfl⟩
    · exact .inr ⟨_, _, rfl, by omega, by omega, .inr (by omega)⟩

theorem eq_of_toNat_toBits_eq {x y : Float} (h : x.toBits.toNat = y.toBits.toNat) : x = y := by
  obtain ⟨⟨a, ha⟩⟩ := x
  obtain ⟨⟨b, hb⟩⟩ := y
  obtain rfl : a = b := UInt64.toNat_inj.mp h
  rfl

/-- Numbers without a sign that stand for the same number are the same. -/
theorem eq_of_ofFloat_eq {x y : Float} (hx : Unsigned x) (hy : Unsigned y)
    (h : Double.ofFloat x = Double.ofFloat y) : x = y := by
  have hxbits := hx
  have hybits := hy
  unfold Unsigned infinityBits at hxbits hybits
  have hbits : x.toBits.toNat = y.toBits.toNat := by
    rw [ofFloat_eq hx, ofFloat_eq hy] at h
    generalize x.toBits.toNat = a at *
    generalize y.toBits.toNat = b at *
    split_ifs at h <;> simp only [Double.finite.injEq, true_and] at h <;> omega
  exact eq_of_toNat_toBits_eq hbits

/-! ### Numbers with a sign -/

/-- The parts of a finite number, read off its bit pattern. -/
theorem bits_of_finite {x : Float} {negative : Bool} {m : Nat} {q : Int}
    (h : Double.ofFloat x = .finite negative m q) :
    negative = decide (2 ^ 63 ≤ x.toBits.toNat) ∧
      (x.toBits.toNat / 2 ^ 52 % 2 ^ 11 = 0 ∧ m = x.toBits.toNat % 2 ^ 52 ∧
          q = Double.leastExponent ∨
        x.toBits.toNat / 2 ^ 52 % 2 ^ 11 ≠ 0 ∧ x.toBits.toNat / 2 ^ 52 % 2 ^ 11 ≠ 2047 ∧
          m = 2 ^ 52 + x.toBits.toNat % 2 ^ 52 ∧
          q = ((x.toBits.toNat / 2 ^ 52 % 2 ^ 11 : Nat) : Int) - 1 + Double.leastExponent) := by
  unfold Double.ofFloat at h
  have hpow63 : Nat.pow 2 63 = 2 ^ 63 := rfl
  have hpow52 : Nat.pow 2 52 = 2 ^ 52 := rfl
  have hpow11 : Nat.pow 2 11 = 2 ^ 11 := rfl
  simp only [hpow63, hpow52, hpow11] at h
  split_ifs at h with hbiased hfraction hzero
  · obtain ⟨rfl, rfl, rfl⟩ := Double.finite.inj h
    exact ⟨rfl, .inl ⟨hzero, rfl, rfl⟩⟩
  · obtain ⟨rfl, rfl, rfl⟩ := Double.finite.inj h
    exact ⟨rfl, .inr ⟨hzero, hbiased, rfl, rfl⟩⟩

/-- A finite number has a canonical mantissa and exponent, also if it is negative. -/
theorem canonical_of_finite {x : Float} {negative : Bool} {m : Nat} {q : Int}
    (h : Double.ofFloat x = .finite negative m q) : Canonical m q ∧ q ≤ 971 := by
  have hleast : Double.leastExponent = -1074 := rfl
  obtain ⟨-, ⟨-, rfl, rfl⟩ | ⟨hzero, hbiased, rfl, rfl⟩⟩ := bits_of_finite h
  · exact ⟨⟨by omega, le_rfl, .inl rfl⟩, by omega⟩
  · exact ⟨⟨by omega, by omega, .inr (by omega)⟩, by omega⟩

/-- Finite numbers that stand for the same number with the same sign are the same. -/
theorem eq_of_finite_eq {x y : Float} {negative : Bool} {m : Nat} {q : Int}
    (hx : Double.ofFloat x = .finite negative m q)
    (hy : Double.ofFloat y = .finite negative m q) : x = y := by
  obtain ⟨hsign, hparts⟩ := bits_of_finite hx
  obtain ⟨hsign', hparts'⟩ := bits_of_finite hy
  have hsame : 2 ^ 63 ≤ x.toBits.toNat ↔ 2 ^ 63 ≤ y.toBits.toNat :=
    decide_eq_decide.mp (hsign.symm.trans hsign')
  have hlt := x.toBits.toNat_lt
  have hlt' := y.toBits.toNat_lt
  refine eq_of_toNat_toBits_eq ?_
  generalize x.toBits.toNat = a at *
  generalize y.toBits.toNat = b at *
  omega

end LoxLang.Decimal
