import LoxLang.Decimal.Layout
import LoxLang.Proofs.Decimal.Rounding
import LoxLang.Proofs.Lexing.Numerals
import Mathlib.Data.List.TakeWhile

/-!
The number that the text of a decimal denotes.

Both written forms of a decimal denote it (`positional_spells`, `scientific_spells`). So the text of
a floating-point number denotes its shortest decimal (`write_finite`), and the number can be told
from its text (`eq_of_write_eq`).
-/

set_option autoImplicit false
set_option relaxedAutoImplicit false

namespace LoxLang

open Source
open Source.Piece (Form numberOf)

namespace Decimal

/-- A signed whole number, as it follows an `e`. -/
def signedNumberOf : List Char → ℤ
  | '-' :: digits => -numberOf digits
  | '+' :: digits => numberOf digits
  | digits => numberOf digits

/-- How many characters stand behind the point. -/
def places (text : List Char) : ℕ :=
  (text.dropWhile (· != '.')).tail.length

/-- The number that digits denote, with or without a point among them. -/
def pointed (text : List Char) : ℚ :=
  numberOf (text.filter (· != '.')) * 10 ^ (-(text.dropWhile (· != '.')).tail.length : ℤ)

/-- The number that digits denote, with or without an exponent after them. -/
def denoted (text : List Char) : ℚ :=
  pointed (text.takeWhile (· != 'e')) * 10 ^ signedNumberOf (text.dropWhile (· != 'e')).tail

/-! ### Digits -/

def Digits (text : List Char) : Prop :=
  ∀ c ∈ text, isDigit c = true

theorem digits_append {us vs : List Char} : Digits (us ++ vs) ↔ Digits us ∧ Digits vs :=
  List.forall_mem_append

theorem digits_toDigits (n : ℕ) : Digits (Nat.toDigits 10 n) := by
  intro c hc
  have hdigit := Nat.isDigit_of_mem_toDigits (by decide) (by decide) hc
  simpa [isDigit, Char.isDigit, Char.le_def] using hdigit

theorem digits_zeros (n : ℕ) : Digits (zeros n) := by
  intro c hc
  obtain rfl := List.eq_of_mem_replicate hc
  decide

theorem numberOf_eq (text : List Char) : numberOf text = Nat.ofDigitChars 10 text 0 := by
  rw [← appendDigits_map_digitOf, appendDigits, List.foldl_map, Nat.ofDigitChars_eq_foldl]
  rfl

theorem numberOf_toDigits (n : ℕ) : numberOf (Nat.toDigits 10 n) = n := by
  rw [numberOf_eq, Nat.ofDigitChars_ten_toDigits]

theorem numberOf_append_zeros (text : List Char) (n : ℕ) :
    numberOf (text ++ zeros n) = numberOf text * 10 ^ n := by
  rw [numberOf_eq, numberOf_eq, Nat.ofDigitChars_append, zeros, Nat.ofDigitChars_replicate_zero,
    Nat.mul_comm]

theorem numberOf_zeros_append (n : ℕ) (text : List Char) :
    numberOf (zeros n ++ text) = numberOf text := by
  rw [numberOf_eq, numberOf_eq, Nat.ofDigitChars_append, zeros, Nat.ofDigitChars_replicate_zero,
    Nat.mul_zero]

/-! ### Numerals -/

theorem Digits.not_mem {text : List Char} (h : Digits text) {c : Char} (hc : isDigit c = false) :
    c ∉ text := by
  intro hmem
  rw [h c hmem] at hc
  cases hc

theorem pointed_eq (text : List Char) :
    pointed text = numberOf (text.filter (· != '.')) * 10 ^ (-places text : ℤ) :=
  rfl

theorem places_whole {text : List Char} (h : Digits text) : places text = 0 := by
  rw [places, List.dropWhile_eq_nil_iff.mpr (ne_point_of_isDigit h), List.tail_nil, List.length_nil]

theorem places_fraction {whole : List Char} (h : Digits whole) (part : List Char) :
    places (whole ++ '.' :: part) = part.length := by
  rw [places, dropWhile_append_of_ends (ne_point_of_isDigit h) (by simp), List.tail_cons]

theorem pointed_whole {text : List Char} (h : Digits text) : pointed text = numberOf text := by
  have hdigits := List.filter_eq_self.mpr (ne_point_of_isDigit h)
  rw [pointed_eq, hdigits, places_whole h, Nat.cast_zero, neg_zero, zpow_zero, mul_one]

theorem pointed_fraction {whole part : List Char} (hw : Digits whole) (hp : Digits part) :
    pointed (whole ++ '.' :: part) = numberOf (whole ++ part) * 10 ^ (-part.length : ℤ) := by
  have hdigits : (whole ++ '.' :: part).filter (· != '.') = whole ++ part := by
    rw [List.filter_append, List.filter_cons_of_neg (by simp),
      List.filter_eq_self.mpr (ne_point_of_isDigit hw),
      List.filter_eq_self.mpr (ne_point_of_isDigit hp)]
  rw [pointed_eq, hdigits, places_fraction hw]

theorem denoted_mantissa {mantissa : List Char} (h : 'e' ∉ mantissa) :
    denoted mantissa = pointed mantissa := by
  have hmark := bne_of_not_mem h
  have hmantissa : mantissa.takeWhile (· != 'e') = mantissa := List.takeWhile_eq_self_iff.mpr hmark
  have hrest : mantissa.dropWhile (· != 'e') = [] := List.dropWhile_eq_nil_iff.mpr hmark
  unfold denoted
  rw [hmantissa, hrest]
  simp [signedNumberOf, numberOf]

theorem signedNumberOf_exponentMark (e : ℤ) : signedNumberOf (exponentMark e).tail = e := by
  have hnumber : numberOf (zeros (2 - (Nat.toDigits 10 e.natAbs).length) ++
      Nat.toDigits 10 e.natAbs) = e.natAbs := by
    rw [numberOf_zeros_append, numberOf_toDigits]
  unfold exponentMark
  dsimp only [List.cons_append, List.tail_cons]
  split
  · rw [signedNumberOf, hnumber]
    omega
  · rw [signedNumberOf, hnumber]
    omega

theorem denoted_exponent {mantissa : List Char} (h : 'e' ∉ mantissa) (e : ℤ) :
    denoted (mantissa ++ exponentMark e) = pointed mantissa * 10 ^ e := by
  have hmark := bne_of_not_mem h
  have hends : ∀ c ∈ (exponentMark e).head?, (c != 'e') = false := by
    simp [exponentMark]
  unfold denoted
  rw [takeWhile_append_of_ends hmark hends, dropWhile_append_of_ends hmark hends,
    signedNumberOf_exponentMark]

/-! ### The written forms -/

theorem ten_zpow_toNat {e : ℤ} (h : 0 ≤ e) : (10 : ℚ) ^ e.toNat = 10 ^ e := by
  rw [← zpow_natCast, Int.toNat_of_nonneg h]

/-- All digits in their places are digits on both sides of a point. After a whole number there is one
zero behind the point. -/
theorem positional_parts (d : Decimal) : ∃ whole part,
    d.positional ['.', '0'] = whole ++ '.' :: part ∧ whole ≠ [] ∧ part ≠ [] ∧ Digits whole ∧
      Digits part ∧ (0 ≤ d.scale ∧ part = ['0'] ∧ whole = Nat.toDigits 10 d.digits ++
          zeros d.scale.toNat ∨
        d.scale < 0 ∧ -part.length = d.scale ∧ numberOf (whole ++ part) = d.digits) := by
  have hds := digits_toDigits d.digits
  have hnumber := numberOf_toDigits d.digits
  have hne : Nat.toDigits 10 d.digits ≠ [] := Nat.toDigits_ne_nil
  unfold positional
  generalize Nat.toDigits 10 d.digits = ds at *
  have hpos : 0 < ds.length := List.length_pos_iff.mpr hne
  dsimp only
  split
  · next hscale =>
    exact ⟨ds ++ zeros d.scale.toNat, ['0'], rfl, by simp [hne], by simp,
      digits_append.mpr ⟨hds, digits_zeros _⟩, digits_zeros 1, .inl ⟨hscale, rfl, rfl⟩⟩
  · next hscale =>
    split
    · next hbefore =>
      have hlength : (ds.drop (ds.length + d.scale).toNat).length = (-d.scale).toNat := by
        rw [List.length_drop]
        omega
      refine ⟨_, _, rfl, ?_, ?_, fun c hc ↦ hds c (List.mem_of_mem_take hc),
        fun c hc ↦ hds c (List.mem_of_mem_drop hc), .inr ⟨by omega, by omega, ?_⟩⟩
      · rw [← List.length_pos_iff, List.length_take]
        omega
      · rw [← List.length_pos_iff, hlength]
        omega
      · rw [List.take_append_drop, hnumber]
    · next hbefore =>
      refine ⟨['0'], zeros (-(ds.length + d.scale)).toNat ++ ds, rfl, by simp, by simp [hne],
        digits_zeros 1, digits_append.mpr ⟨digits_zeros _, hds⟩, .inr ⟨by omega, ?_, ?_⟩⟩
      · rw [List.length_append, zeros, List.length_replicate]
        omega
      · rw [show ['0'] = zeros 1 from rfl, numberOf_zeros_append, numberOf_zeros_append, hnumber]

/-- All digits in their places are a fraction, and it denotes the decimal. -/
theorem positional_spells (d : Decimal) :
    Form.fraction.Spells (d.positional ['.', '0']) ∧
      pointed (d.positional ['.', '0']) = d.value := by
  obtain ⟨whole, part, htext, hwhole, hpart, hw, hp, hcases⟩ := positional_parts d
  rw [htext]
  refine ⟨.fraction hwhole hpart hw hp, ?_⟩
  rw [pointed_fraction hw hp, value]
  rcases hcases with ⟨hscale, rfl, rfl⟩ | ⟨-, hlength, hnumber⟩
  · have hzeros : zeros d.scale.toNat ++ ['0'] = zeros (d.scale.toNat + 1) :=
      List.replicate_succ'.symm
    rw [List.append_assoc, hzeros, numberOf_append_zeros, numberOf_toDigits]
    push_cast
    rw [pow_succ, ten_zpow_toNat hscale, List.length_singleton, Nat.cast_one, zpow_neg_one]
    field_simp
  · rw [hlength, hnumber]

/-- One digit in front of the point, or one digit alone; with the exponent it denotes the decimal,
and its last digit stands in the same place. -/
theorem scientific_spells (d : Decimal) : ∃ mantissa,
    d.scientific = mantissa ++ exponentMark d.leading ∧
      (Form.integer.Spells mantissa ∨ Form.fraction.Spells mantissa) ∧
      pointed mantissa * 10 ^ d.leading = d.value ∧ d.leading - places mantissa = d.scale := by
  have hds := digits_toDigits d.digits
  have hnumber := numberOf_toDigits d.digits
  have hleading : d.leading = (Nat.toDigits 10 d.digits).length + d.scale - 1 := rfl
  have hne : Nat.toDigits 10 d.digits ≠ [] := Nat.toDigits_ne_nil
  unfold scientific value
  generalize Nat.toDigits 10 d.digits = ds at *
  match ds with
  | [] => exact absurd rfl hne
  | [c] =>
    refine ⟨[c], rfl, .inl (.integer hne hds), ?_, ?_⟩
    · rw [pointed_whole hds, hnumber, hleading]
      simp
    · rw [places_whole hds, hleading]
      simp
  | c :: c' :: cs =>
    obtain ⟨hc, hcs⟩ := digits_append.mp (show Digits ([c] ++ c' :: cs) from hds)
    have hplaces : d.leading - (c' :: cs).length = d.scale := by
      rw [hleading, List.length_cons (a := c)]
      push_cast
      ring
    refine ⟨c :: '.' :: c' :: cs, rfl, .inr (.fraction (by simp) (by simp) hc hcs), ?_, ?_⟩
    · have hpointed := pointed_fraction hc hcs
      rw [List.singleton_append, List.singleton_append] at hpointed
      rw [hpointed, hnumber, mul_assoc, ← zpow_add₀ (by norm_num), neg_add_eq_sub, hplaces]
    · have hcount := places_fraction hc (c' :: cs)
      rw [List.singleton_append] at hcount
      rw [hcount, hplaces]

/-! ### The text of a number -/

/-- The text begins with a digit, it has a point or an exponent, and it has no characters but those
of a number. -/
structure Numeral (text : List Char) : Prop where
  first : ∃ c ∈ text.head?, isDigit c = true
  marked : '.' ∈ text ∨ 'e' ∈ text
  plain : ∀ c ∈ text, isDigit c = true ∨ c ∈ ['.', 'e', '+', '-']

theorem mem_exponentMark {e : ℤ} {c : Char} (h : c ∈ exponentMark e) :
    isDigit c = true ∨ c ∈ ['.', 'e', '+', '-'] := by
  have hdigits := digits_append.mpr ⟨digits_zeros (2 - (Nat.toDigits 10 e.natAbs).length),
    digits_toDigits e.natAbs⟩
  unfold exponentMark at h
  dsimp only [List.cons_append] at h
  rcases List.mem_cons.mp h with rfl | h
  · exact .inr (by simp)
  · rcases List.mem_cons.mp h with rfl | h
    · split <;> exact .inr (by simp)
    · exact .inl (hdigits c h)

section

variable {text : List Char} (h : Form.integer.Spells text ∨ Form.fraction.Spells text)

include h

theorem first_of_spells (rest : List Char) : ∃ c ∈ (text ++ rest).head?, isDigit c = true := by
  rcases h with h | h
  · cases h with
    | integer hne hdigits =>
      obtain ⟨c, cs, rfl⟩ := List.exists_cons_of_ne_nil hne
      exact ⟨c, rfl, hdigits c (by simp)⟩
  · cases h with
    | fraction hne _ hdigits _ =>
      obtain ⟨c, cs, rfl⟩ := List.exists_cons_of_ne_nil hne
      exact ⟨c, rfl, hdigits c (by simp)⟩

theorem digit_or_point {c : Char} (hc : c ∈ text) : isDigit c = true ∨ c = '.' := by
  rcases h with h | h
  · cases h with
    | integer _ hdigits => exact .inl (hdigits c hc)
  · cases h with
    | fraction _ _ hw hp =>
      rcases List.mem_append.mp hc with hc | hc
      · exact .inl (hw c hc)
      · rcases List.mem_cons.mp hc with rfl | hc
        · exact .inr rfl
        · exact .inl (hp c hc)

theorem exponent_not_mem : 'e' ∉ text := by
  intro hmem
  rcases digit_or_point h hmem with hdigit | hpoint
  · exact absurd hdigit (by decide)
  · exact absurd hpoint (by decide)

theorem numeral_exponent (e : ℤ) : Numeral (text ++ exponentMark e) := by
  refine ⟨first_of_spells h _, .inr (by simp [exponentMark]), fun c hc ↦ ?_⟩
  rcases List.mem_append.mp hc with hc | hc
  · rcases digit_or_point h hc with hdigit | rfl
    · exact .inl hdigit
    · exact .inr (by simp)
  · exact mem_exponentMark hc

end

theorem numeral_fraction {text : List Char} (h : Form.fraction.Spells text) : Numeral text := by
  have hfirst := first_of_spells (.inr h) []
  rw [List.append_nil] at hfirst
  refine ⟨hfirst, .inl ?_, fun c hc ↦ ?_⟩
  · cases h with
    | fraction => simp
  · rcases digit_or_point (.inr h) hc with hdigit | rfl
    · exact .inl hdigit
    · exact .inr (by simp)

section

variable {l : Layout} {x y : Float}

/-- The digits of a decimal, in the form that the layout chooses. -/
def Layout.digits (l : Layout) (d : Decimal) : List Char :=
  if l.isPositional d.leading then d.positional l.wholeMark.toList else d.scientific

/-- Digits with a minus sign in front if the number is negative. -/
def withSign (negative : Bool) (digits : List Char) : List Char :=
  if negative then '-' :: digits else digits

theorem write_eq {negative : Bool} {m : ℕ} {q : ℤ} (h : Double.ofFloat x = .finite negative m q) :
    l.write x = String.ofList (withSign negative (l.digits (shortest m q))) := by
  unfold Layout.write
  rw [h]
  rfl

/-- The digits of a decimal are a numeral that denotes it. -/
theorem digits_spells (hl : l.wholeMark = ".0") (d : Decimal) :
    Numeral (l.digits d) ∧ denoted (l.digits d) = d.value := by
  have hmark : l.wholeMark.toList = ['.', '0'] := by rw [hl]; rfl
  unfold Layout.digits
  rw [hmark]
  split
  · obtain ⟨hspells, hvalue⟩ := positional_spells d
    have hnumeral := numeral_fraction hspells
    refine ⟨hnumeral, ?_⟩
    rw [denoted_mantissa (exponent_not_mem (.inr hspells)), hvalue]
  · obtain ⟨mantissa, htext, hspells, hvalue, -⟩ := scientific_spells d
    rw [htext]
    refine ⟨numeral_exponent hspells _, ?_⟩
    rw [denoted_exponent (exponent_not_mem hspells), hvalue]

/-- A finite number is written as a numeral that denotes its shortest decimal. -/
theorem write_finite (hl : l.wholeMark = ".0") {m : ℕ} {q : ℤ}
    (h : Double.ofFloat x = .finite false m q) :
    Numeral (l.write x).toList ∧ denoted (l.write x).toList = (shortest m q).value := by
  rw [write_eq h, String.toList_ofList]
  exact digits_spells hl (shortest m q)

theorem write_infinite (h : Double.ofFloat x = .infinite false) : l.write x = "inf" := by
  unfold Layout.write
  rw [h]
  rfl

theorem not_numeral_inf : ¬ Numeral "inf".toList := by
  intro h
  obtain ⟨c, hc, hdigit⟩ := h.first
  obtain rfl := Option.some.inj hc
  exact absurd hdigit (by decide)

/-- Numbers without a sign that are written alike are the same. -/
theorem eq_of_write_eq (hl : l.wholeMark = ".0") (hx : Unsigned x) (hy : Unsigned y)
    (h : l.write x = l.write y) : x = y := by
  refine eq_of_ofFloat_eq hx hy ?_
  rcases ofFloat_cases hx with hinf | ⟨m, q, hfinite, hcanonical⟩ <;>
    rcases ofFloat_cases hy with hinf' | ⟨m', q', hfinite', hcanonical'⟩
  · rw [hinf, hinf']
  · have hnumeral := (write_finite hl hfinite').1
    rw [← h, write_infinite hinf] at hnumeral
    exact absurd hnumeral not_numeral_inf
  · have hnumeral := (write_finite hl hfinite).1
    rw [h, write_infinite hinf'] at hnumeral
    exact absurd hnumeral not_numeral_inf
  · have hvalue := (write_finite hl hfinite).2
    rw [h, (write_finite hl hfinite').2] at hvalue
    obtain ⟨rfl, rfl⟩ := eq_of_value_shortest_eq hcanonical hcanonical' hvalue.symm
    rw [hfinite, hfinite']

end

end Decimal

end LoxLang
