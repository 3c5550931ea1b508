import LoxLang.Proofs.Lexing.Longest

/-!
Reading the digits of a numeral.

A numeral of the language is a part of what the readers of numbers accept: it has no blanks, no sign
and only ASCII digits, so it is read as the decimal number that its digits denote.
-/

set_option autoImplicit false
set_option relaxedAutoImplicit false

namespace LoxLang.Source

open Decimal
open Piece (digitOf numberOf)

theorem toNat_of_isDigit {c : Char} (h : isDigit c = true) : 48 ≤ c.toNat ∧ c.toNat ≤ 57 := by
  simpa [isDigit, Char.le_def, UInt32.le_iff_toNat_le] using h

theorem isPadding_of_isDigit {c : Char} (h : isDigit c = true) : isPadding c = false := by
  have hbounds := toNat_of_isDigit h
  simp only [isPadding, Text.isBlank, Bool.and_eq_false_iff, Bool.or_eq_false_iff,
    decide_eq_false_iff_not]
  omega

theorem digitValue?_eq {c : Char} (h : isDigit c = true) :
    Text.digitValue? c = some (digitOf c) :=
  Text.digitValue?_of_isDigit (by simpa [isDigit, Char.isDigit, Char.le_def] using h)

/-- Nothing is taken off a text whose ends are not to be taken off. -/
theorem trim_eq_self {α : Type} {p : α → Bool} {xs : List α} (hhead : ∀ x ∈ xs.head?, p x = false)
    (hlast : ∀ x ∈ xs.getLast?, p x = false) : Text.trim p xs = xs := by
  have hkeep : ∀ ys : List α, (∀ y ∈ ys.head?, p y = false) → ys.dropWhile p = ys := by
    intro ys hys
    cases ys with
    | nil => rfl
    | cons y ys => simp [hys y rfl]
  rw [Text.trim, hkeep xs hhead, hkeep xs.reverse (by simpa using hlast), List.reverse_reverse]

/-- A text between two digits has neither a sign nor blanks around it. -/
theorem splitSign_eq {text : List Char} (hhead : ∀ c ∈ text.head?, isDigit c = true)
    (hlast : ∀ c ∈ text.getLast?, isDigit c = true) : splitSign text = (false, text) := by
  have htrim : Text.trim isPadding text = text :=
    trim_eq_self (fun c hc ↦ isPadding_of_isDigit (hhead c hc))
      fun c hc ↦ isPadding_of_isDigit (hlast c hc)
  unfold splitSign
  rw [htrim]
  split
  · exact absurd (hhead '-' rfl) (by decide)
  · exact absurd (hhead '+' rfl) (by decide)
  · rfl

theorem digitRun?_eq {digits : List Char} (hne : digits ≠ [])
    (h : ∀ c ∈ digits, isDigit c = true) : digitRun? digits = some (digits.map digitOf) := by
  induction digits with
  | nil => exact absurd rfl hne
  | cons c cs ih =>
    obtain ⟨hc, hcs⟩ := List.forall_mem_cons.mp h
    cases cs with
    | nil => simp [digitRun?, digitValue?_eq hc]
    | cons d ds =>
      have hd : d ≠ '_' := by
        rintro rfl
        exact absurd (hcs '_' (by simp)) (by decide)
      rw [digitRun?]
      · simp [digitValue?_eq hc, ih (by simp) hcs]
      · simp
      · simpa using hd

theorem appendDigits_map_digitOf (digits : List Char) :
    appendDigits 0 (digits.map digitOf) = numberOf digits := by
  unfold appendDigits numberOf
  rw [List.map_reverse, Nat.ofDigits_eq_foldr, List.foldr_reverse]
  simp only [Nat.add_comm, Nat.cast_id]

theorem readInteger?_eq {digits : List Char} (hne : digits ≠ [])
    (h : ∀ c ∈ digits, isDigit c = true) :
    readInteger? digits =
      if digits.length ≤ digitLimit then some (numberOf digits : Int) else none := by
  have hsplit : splitSign digits = (false, digits) :=
    splitSign_eq (fun c hc ↦ h c (List.mem_of_mem_head? hc))
      fun c hc ↦ h c (List.mem_of_getLast? hc)
  by_cases hlength : digits.length ≤ digitLimit
  · simp [readInteger?, hsplit, digitRun?_eq hne h, hlength, Nat.not_lt.mpr hlength,
      appendDigits_map_digitOf]
  · simp [readInteger?, hsplit, digitRun?_eq hne h, hlength, Nat.not_le.mp hlength]

theorem ne_point_of_isDigit {digits : List Char} (h : ∀ c ∈ digits, isDigit c = true) :
    ∀ c ∈ digits, (c != '.') = true := by
  intro c hc
  have hne : c ≠ '.' := by
    rintro rfl
    exact absurd (h '.' hc) (by decide)
  simpa using hne

theorem readFraction?_eq {whole part : List Char} (hwhole : whole ≠ []) (hpart : part ≠ [])
    (hw : ∀ c ∈ whole, isDigit c = true) (hp : ∀ c ∈ part, isDigit c = true) :
    readFraction? (whole ++ '.' :: part) =
      some (Float.ofScientific (numberOf (whole ++ part)) true part.length) := by
  have hsplit : splitSign (whole ++ '.' :: part) = (false, whole ++ '.' :: part) := by
    refine splitSign_eq (fun c hc ↦ ?_) fun c hc ↦ ?_
    · obtain ⟨d, ds, rfl⟩ := List.exists_cons_of_ne_nil hwhole
      exact hw c (List.mem_of_mem_head? hc)
    · have hlast : (whole ++ '.' :: part).getLast? = some (part.getLast hpart) := by
        simp [List.getLast?_cons, List.getLast?_eq_some_getLast hpart]
      obtain rfl : part.getLast hpart = c := by simpa [hlast] using hc
      exact hp _ (List.getLast_mem hpart)
  have hbefore : (whole ++ '.' :: part).takeWhile (· != '.') = whole :=
    takeWhile_append_of_ends (ne_point_of_isDigit hw) (by simp)
  have hafter : (whole ++ '.' :: part).dropWhile (· != '.') = '.' :: part :=
    dropWhile_append_of_ends (ne_point_of_isDigit hw) (by simp)
  have hempty : whole.isEmpty = false := by simpa using hwhole
  simp [readFraction?, hsplit, hbefore, hafter, hempty, digitRun?_eq hwhole hw,
    digitRun?_eq hpart hp, ← List.map_append, appendDigits_map_digitOf]

end LoxLang.Source
