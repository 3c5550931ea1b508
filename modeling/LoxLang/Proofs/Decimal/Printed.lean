import LoxLang.Proofs.Decimal.Reading
import LoxLang.Proofs.Decimal.Widest
import LoxLang.Proofs.Lexing.Seam
import LoxLang.Value.Text

/-!
Printed floating-point numbers.

The digits of the shortest decimal stand in their places, with no zeros in front of a whole number and
none after a fraction (`tidy_shortest`), and they denote it (`positional_nil_spells`). They are what
the text of a literal becomes without its exponent and without a point and a zero at its end
(`positional_nil_eq`). So the text that is printed denotes the same decimal as the text of a literal,
tells the numbers apart and is one numeral if there is no sign (`printed_exactly`).
-/

set_option autoImplicit false
set_option relaxedAutoImplicit false

namespace LoxLang

open Source
open Source.Piece (Form numberOf)

namespace Decimal

/-! ### Digits in their places -/

/-- Digits without superfluous zeros in front. -/
structure Whole (text : List Char) : Prop where
  nonempty : text ≠ []
  digits : Digits text
  unpadded : text.head? = some '0' → text = ['0']

theorem whole_zero : Whole ['0'] :=
  ⟨by simp, digits_zeros 1, fun _ ↦ rfl⟩

/-- A whole number, or a whole number and a point with digits that do not end with a zero. -/
inductive Tidy : List Char → Prop
  | whole {whole : List Char} (h : Whole whole) : Tidy whole
  | fraction {whole part : List Char} (h : Whole whole) (hpart : part ≠ []) (hp : Digits part)
    (hlast : part.getLast? ≠ some '0') : Tidy (whole ++ '.' :: part)

theorem digitChar_ne_zero : ∀ k < 10, k ≠ 0 → Nat.digitChar k ≠ '0' := by
  decide

theorem getLast?_toDigits {n : ℕ} (h : n % 10 ≠ 0) : (Nat.toDigits 10 n).getLast? ≠ some '0' := by
  have hlast : (Nat.toDigits 10 n).getLast? = some (n % 10).digitChar := by
    rw [Nat.toDigits_eq_if (by norm_num)]
    split
    · next hlt => rw [List.getLast?_singleton, Nat.mod_eq_of_lt hlt]
    · exact List.getLast?_concat
  rw [hlast]
  exact fun heq ↦ digitChar_ne_zero _ (Nat.mod_lt _ (by norm_num)) h (Option.some.inj heq)

theorem head?_toDigits {n : ℕ} (h : 0 < n) : (Nat.toDigits 10 n).head? ≠ some '0' := by
  induction n using Nat.strong_induction_on with
  | _ n ih =>
    rw [Nat.toDigits_eq_if (by norm_num)]
    split
    · next hlt => exact fun heq ↦ digitChar_ne_zero n hlt h.ne' (Option.some.inj heq)
    · obtain ⟨c, cs, hcs⟩ := List.exists_cons_of_ne_nil (@Nat.toDigits_ne_nil (n / 10) 10)
      have hrest := ih (n / 10) (by omega) (by omega)
      rw [hcs] at hrest ⊢
      exact hrest

/-- Without a mark after a whole number, the digits in their places are a whole number or a fraction,
and denote the decimal. -/
theorem positional_nil_spells (d : Decimal) :
    (0 ≤ d.scale ∧ Form.integer.Spells (d.positional []) ∨
        d.scale < 0 ∧ Form.fraction.Spells (d.positional [])) ∧
      pointed (d.positional []) = d.value := by
  by_cases hscale : 0 ≤ d.scale
  · have hdigits : Digits (Nat.toDigits 10 d.digits ++ zeros d.scale.toNat) :=
      digits_append.mpr ⟨digits_toDigits _, digits_zeros _⟩
    have htext : d.positional [] = Nat.toDigits 10 d.digits ++ zeros d.scale.toNat := by
      rw [positional, if_pos hscale, List.append_nil]
    rw [htext]
    refine ⟨.inl ⟨hscale, .integer (by simp) hdigits⟩, ?_⟩
    rw [pointed_whole hdigits, numberOf_append_zeros, numberOf_toDigits,
      value_of_scale_nonneg hscale]
  · have hmark : d.positional [] = d.positional ['.', '0'] := by
      rw [positional, positional, if_neg hscale, if_neg hscale]
    obtain ⟨hspells, hvalue⟩ := positional_spells d
    rw [hmark]
    exact ⟨.inr ⟨not_le.mp hscale, hspells⟩, hvalue⟩

section

variable {ds : List Char} (hds : Digits ds)

include hds

theorem whole_append_zeros (hne : ds ≠ []) (hhead : ds.head? ≠ some '0') (n : ℕ) :
    Whole (ds ++ zeros n) where
  nonempty := by simp [hne]
  digits := digits_append.mpr ⟨hds, digits_zeros n⟩
  unpadded hstart := by
    rw [List.head?_append_of_ne_nil _ hne] at hstart
    exact absurd hstart hhead

/-- The point stands between the digits. -/
theorem tidy_take_drop {n : ℕ} (hhead : ds.head? ≠ some '0') (hlast : ds.getLast? ≠ some '0')
    (hn : 0 < n) (hlength : n < ds.length) : Tidy (ds.take n ++ '.' :: ds.drop n) := by
  have hwhole : Whole (ds.take n) := by
    refine ⟨?_, fun c hc ↦ hds c (List.mem_of_mem_take hc), fun hstart ↦ ?_⟩
    · rw [← List.length_pos_iff, List.length_take]
      omega
    · rw [List.head?_take, if_neg hn.ne'] at hstart
      exact absurd hstart hhead
  refine .fraction hwhole ?_ (fun c hc ↦ hds c (List.mem_of_mem_drop hc)) ?_
  · rw [← List.length_pos_iff, List.length_drop]
    omega
  · rw [List.getLast?_drop, if_neg (by omega)]
    exact hlast

/-- The point stands in front of the digits. -/
theorem tidy_zeros_append (hne : ds ≠ []) (hlast : ds.getLast? ≠ some '0') (n : ℕ) :
    Tidy ('0' :: '.' :: zeros n ++ ds) := by
  have hpart : (zeros n ++ ds).getLast? ≠ some '0' := by
    rwa [List.getLast?_append_of_ne_nil _ hne]
  exact .fraction whole_zero (by simp [hne]) (digits_append.mpr ⟨digits_zeros n, hds⟩) hpart

end

theorem tidy_positional {d : Decimal} (hzero : d.digits = 0 → d.scale = 0)
    (hlast : d.scale < 0 → d.digits % 10 ≠ 0) : Tidy (d.positional []) := by
  rcases Nat.eq_zero_or_pos d.digits with hdigits | hdigits
  · rw [positional, hdigits, hzero hdigits]
    exact .whole whole_zero
  have hds := digits_toDigits d.digits
  have hne := @Nat.toDigits_ne_nil d.digits 10
  have hhead := head?_toDigits hdigits
  unfold positional
  dsimp only
  split
  · rw [List.append_nil]
    exact .whole (whole_append_zeros hds hne hhead _)
  · next hscale =>
    have hend := getLast?_toDigits (hlast (not_le.mp hscale))
    split
    · exact tidy_take_drop hds hhead hend (by omega) (by omega)
    · exact tidy_zeros_append hds hne hend _

theorem tidy_shortest {m : ℕ} {q : ℤ} (h : Canonical m q) :
    Tidy ((shortest m q).positional []) := by
  rcases Nat.eq_zero_or_pos m with rfl | hm
  · exact tidy_positional (fun _ ↦ rfl) fun hscale ↦ absurd hscale (lt_irrefl 0)
  · exact tidy_positional (fun hzero ↦ absurd hzero (digits_shortest_pos hm).ne')
      (digits_shortest_mod_ten_ne_zero h hm)

/-! ### From the text of a literal -/

/-- The digits of a text without a sign, and the place of the last one. -/
def spelled (text : List Char) : Decimal where
  digits := numberOf ((text.takeWhile (· != 'e')).filter (· != '.'))
  scale := signedNumberOf (text.dropWhile (· != 'e')).tail - places (text.takeWhile (· != 'e'))

/-- A text without the point and the zero at its end, if it ends so. -/
def withoutPointZero (text : List Char) : List Char :=
  if ['.', '0'] <:+ text then text.dropLast.dropLast else text

theorem value_spelled (text : List Char) : (spelled text).value = denoted text := by
  rw [value, spelled, denoted, pointed_eq, mul_assoc, ← zpow_add₀ (by norm_num), neg_add_eq_sub]

theorem scale_spelled {mantissa : List Char} (h : 'e' ∉ mantissa) :
    (spelled mantissa).scale = -places mantissa := by
  have hmark := bne_of_not_mem h
  have hmantissa : mantissa.takeWhile (· != 'e') = mantissa := List.takeWhile_eq_self_iff.mpr hmark
  have hrest : mantissa.dropWhile (· != 'e') = [] := List.dropWhile_eq_nil_iff.mpr hmark
  rw [spelled, hmantissa, hrest]
  simp [signedNumberOf, numberOf]

theorem scale_spelled_exponent {mantissa : List Char} (h : 'e' ∉ mantissa) (e : ℤ) :
    (spelled (mantissa ++ exponentMark e)).scale = e - places mantissa := by
  have hmark := bne_of_not_mem h
  have hends : ∀ c ∈ (exponentMark e).head?, (c != 'e') = false := by
    simp [exponentMark]
  rw [spelled, takeWhile_append_of_ends hmark hends, dropWhile_append_of_ends hmark hends,
    signedNumberOf_exponentMark]

theorem eq_of_value_eq {d d' : Decimal} (hvalue : d.value = d'.value) (hscale : d.scale = d'.scale) :
    d = d' := by
  obtain ⟨digits, scale⟩ := d
  obtain ⟨digits', scale'⟩ := d'
  obtain rfl : scale = scale' := hscale
  have hcast : (digits : ℚ) = digits' :=
    mul_right_cancel₀ (zpow_ne_zero scale (by norm_num : (10 : ℚ) ≠ 0)) hvalue
  rw [Nat.cast_injective hcast]

/-- The text of a literal spells its decimal, or ten times as many tenths if the decimal is whole. -/
theorem spelled_digits {l : Layout} (hl : l.wholeMark = ".0") (d : Decimal) :
    spelled (l.digits d) = d ∨
      0 ≤ d.scale ∧ spelled (l.digits d) = ⟨d.digits * 10 ^ d.scale.toNat * 10, -1⟩ := by
  have hvalue : (spelled (l.digits d)).value = d.value := by
    rw [value_spelled, (digits_spells hl d).2]
  have hmark : l.wholeMark.toList = ['.', '0'] := by rw [hl]; rfl
  by_cases hform : l.isPositional d.leading = true
  · have htext : l.digits d = d.positional ['.', '0'] := by
      rw [Layout.digits, if_pos hform, hmark]
    have hspells := (positional_spells d).1
    have hscale := scale_spelled (exponent_not_mem (.inr hspells))
    rw [← htext] at hscale
    obtain ⟨whole, part, hparts, -, -, hw, -, hcases⟩ := positional_parts d
    rw [htext, hparts, places_fraction hw, ← hparts, ← htext] at hscale
    rcases hcases with ⟨hwhole, rfl, -⟩ | ⟨-, hlength, -⟩
    · refine .inr ⟨hwhole, eq_of_value_eq ?_ hscale⟩
      rw [hvalue, value_of_scale_nonneg hwhole, value]
      push_cast
      rw [zpow_neg_one]
      field_simp
    · exact .inl (eq_of_value_eq hvalue (hscale.trans hlength))
  · have htext : l.digits d = d.scientific := by
      rw [Layout.digits, if_neg hform]
    obtain ⟨mantissa, hmantissa, hspells, -, hlast⟩ := scientific_spells d
    have hscale := scale_spelled_exponent (exponent_not_mem hspells) d.leading
    rw [← hmantissa, ← htext, hlast] at hscale
    exact .inl (eq_of_value_eq hvalue hscale)

theorem withoutPointZero_append (text : List Char) : withoutPointZero (text ++ ['.', '0']) = text := by
  rw [withoutPointZero, if_pos (List.suffix_append _ _)]
  simp

theorem withoutPointZero_of_tidy {text : List Char} (h : Tidy text) :
    withoutPointZero text = text := by
  refine if_neg fun hsuffix ↦ ?_
  cases h with
  | whole h =>
    have hpoint : '.' ∈ text := hsuffix.subset (by simp)
    exact absurd hpoint (h.digits.not_mem (by decide))
  | fraction h hpart _ hlast =>
    obtain ⟨front, hfront⟩ := hsuffix
    have hend := congrArg List.getLast? hfront
    rw [List.getLast?_append_of_ne_nil _ (by simp), List.getLast?_append_of_ne_nil _ (by simp),
      List.getLast?_cons_of_ne_nil hpart] at hend
    exact hlast hend.symm

theorem toDigits_mul_ten_pow {n : ℕ} (h : 0 < n) (k : ℕ) :
    Nat.toDigits 10 (n * 10 ^ k) = Nat.toDigits 10 n ++ zeros k := by
  induction k with
  | zero => simp [zeros]
  | succ k ih =>
    have hpos : 0 < n * 10 ^ k := by positivity
    have hlast : (n * 10 ^ k * 10 % 10).digitChar = '0' := by rw [Nat.mul_mod_left]; rfl
    rw [pow_succ, ← mul_assoc, Nat.toDigits_of_base_le (by norm_num) (by omega),
      Nat.mul_div_cancel _ (by norm_num), hlast, ih, zeros, zeros, List.replicate_succ',
      List.append_assoc]

theorem positional_tenfold (n : ℕ) :
    positional [] ⟨n * 10, -1⟩ = Nat.toDigits 10 n ++ ['.', '0'] := by
  rcases Nat.eq_zero_or_pos n with rfl | hn
  · decide
  · have htoDigits : Nat.toDigits 10 (n * 10) = Nat.toDigits 10 n ++ ['0'] :=
      toDigits_mul_ten_pow hn 1
    have hpos := List.length_pos_iff.mpr (@Nat.toDigits_ne_nil n 10)
    have hbefore : ((Nat.toDigits 10 n ++ ['0']).length : ℤ) + -1 = (Nat.toDigits 10 n).length := by
      rw [List.length_append, List.length_singleton]
      push_cast
      ring
    unfold positional
    dsimp only
    rw [if_neg (by norm_num), htoDigits, hbefore, if_pos (by exact_mod_cast hpos),
      Int.toNat_natCast, List.take_left, List.drop_left]

/-- The digits in their places, as they come from the text of a literal. -/
theorem positional_nil_eq {l : Layout} (hl : l.wholeMark = ".0") {m : ℕ} {q : ℤ}
    (h : Canonical m q) : (shortest m q).positional [] =
      withoutPointZero ((spelled (l.digits (shortest m q))).positional []) := by
  rcases spelled_digits hl (shortest m q) with hspelled | ⟨hscale, hspelled⟩
  · rw [hspelled, withoutPointZero_of_tidy (tidy_shortest h)]
  · rw [hspelled, positional_tenfold, withoutPointZero_append, positional, if_pos hscale,
      List.append_nil]
    rcases Nat.eq_zero_or_pos m with rfl | hm
    · have hzero : shortest 0 q = ⟨0, 0⟩ := rfl
      rw [hzero]
      decide
    · exact (toDigits_mul_ten_pow (digits_shortest_pos hm) _).symm

/-! ### Numbers with a sign -/

/-- Whether a minus sign is in front, and the text behind it. -/
def splitMinus : List Char → Bool × List Char
  | '-' :: digits => (true, digits)
  | digits => (false, digits)

/-- The number that a text denotes, which may have a sign in front. -/
def signedDenoted (text : List Char) : ℚ :=
  if (splitMinus text).1 then -denoted (splitMinus text).2 else denoted (splitMinus text).2

/-- The text of a number with all digits in their places, without a point and a zero at the end. -/
def expanded (text : List Char) : List Char :=
  withSign (splitMinus text).1 (withoutPointZero ((spelled (splitMinus text).2).positional []))

theorem splitMinus_withSign (negative : Bool) {digits : List Char}
    (h : ∃ c ∈ digits.head?, isDigit c = true) :
    splitMinus (withSign negative digits) = (negative, digits) := by
  cases negative with
  | true => rfl
  | false =>
    show splitMinus digits = (false, digits)
    unfold splitMinus
    split
    · obtain ⟨_, ⟨⟩, hdigit⟩ := h
      exact absurd hdigit (by decide)
    · rfl

theorem signedDenoted_withSign (negative : Bool) {digits : List Char}
    (h : ∃ c ∈ digits.head?, isDigit c = true) :
    signedDenoted (withSign negative digits) =
      if negative then -denoted digits else denoted digits := by
  rw [signedDenoted, splitMinus_withSign negative h]

/-- Whether a number is whole, in terms of its mantissa and exponent. -/
theorem exists_isInteger_iff {negative : Bool} {m : ℕ} {q : ℤ} :
    (∃ n, (Double.finite negative m q).isInteger n = true) ↔ ∃ n : ℕ, (m * 2 ^ q : ℚ) = n := by
  have hpow : (2 : ℚ) ^ q * 2 ^ (-q).toNat = 2 ^ q.toNat := zpow_mul_pow_toNat_neg two_ne_zero q
  have hnat : ∀ n : ℕ, (m * 2 ^ q : ℚ) = n ↔ n * 2 ^ (-q).toNat = m * 2 ^ q.toNat := by
    intro n
    rw [← mul_left_inj' (pow_ne_zero (-q).toNat (two_ne_zero : (2 : ℚ) ≠ 0)), mul_assoc, hpow]
    constructor
    · intro h
      exact_mod_cast h.symm
    · intro h
      exact_mod_cast h.symm
  simp only [hnat, Double.isInteger, beq_iff_eq, Nat.pow_eq]
  constructor
  · rintro ⟨n, hn⟩
    refine ⟨n.natAbs, ?_⟩
    have habs := congrArg Int.natAbs hn
    simpa [Int.natAbs_mul, apply_ite Int.natAbs] using habs
  · rintro ⟨n, hn⟩
    have hint : (n : ℤ) * (2 ^ (-q).toNat : ℕ) = m * (2 ^ q.toNat : ℕ) := by exact_mod_cast hn
    cases negative with
    | false => exact ⟨n, hint⟩
    | true => exact ⟨-n, by rw [if_pos rfl, neg_mul, neg_mul, hint]⟩

/-! ### Reading a printed number -/

/-- A text that is spelled as one number is one token, and then the text ends. -/
theorem tokenize_number {p : Piece} (hkind : p.kind? = some .number) (hread : p.Readable)
    (hlines : Piece.newlines p.text = 0) : tokenize (String.ofList p.text) =
      .ok [⟨.number, String.ofList p.text, p.literal, 1⟩, ⟨.endOfText, "", .nil, 1⟩] := by
  have hspell : Piece.spell [p] = (String.ofList p.text).toList := by simp
  have htiles : Piece.Tiles [p] [] :=
    ⟨(Piece.leads_iff_ends p _).mpr (Form.ends_nil p.form), trivial⟩
  rw [tokenize_of_tiles hspell htiles (List.forall_mem_singleton.mpr hread)]
  simp [Piece.tokensFrom, Piece.token?, hkind, hlines, endToken]

/-- What the digits of a number are read as: a whole number exactly if the number is whole. -/
def IsLiteralOf (x : Float) (digits : List Char) (literal : Value) : Prop :=
  (∃ n, (Double.ofFloat x).isInteger n = true) ∧ literal = .integer (numberOf digits) ∨
    (¬ ∃ n, (Double.ofFloat x).isInteger n = true) ∧ literal =
      .float (Float.ofScientific (numberOf (digits.filter (· != '.'))) true (places digits))

section

variable {negative : Bool} {m : ℕ} {q : ℤ} {x : Float}

theorem tokenize_digits (h : Double.ofFloat x = .finite negative m q) :
    ∃ literal, IsLiteralOf x ((shortest m q).positional []) literal ∧
      tokenize (String.ofList ((shortest m q).positional [])) =
        .ok [⟨.number, String.ofList ((shortest m q).positional []), literal, 1⟩,
          ⟨.endOfText, "", .nil, 1⟩] := by
  obtain ⟨hcanonical, hq⟩ := canonical_of_finite h
  have hinteger : (∃ n, (Double.ofFloat x).isInteger n = true) ↔ 0 ≤ (shortest m q).scale := by
    rw [h, exists_isInteger_iff, scale_shortest_nonneg_iff hcanonical]
  have hlines : ∀ text, Form.integer.Spells text ∨ Form.fraction.Spells text →
      Piece.newlines text = 0 := fun text hspells ↦ Lexer.newlines_eq_zero fun c hc ↦
    (digit_or_point hspells hc).imp_left Lexer.isAlphaNumeric_of_isDigit
  obtain ⟨⟨hscale, hspells⟩ | ⟨hscale, hspells⟩, -⟩ := positional_nil_spells (shortest m q)
  · have hlength : ((shortest m q).positional []).length ≤ digitLimit := by
      have hcount := length_shortest_le hcanonical hq hscale
      rw [positional, if_pos hscale, List.append_nil, List.length_append, zeros,
        List.length_replicate]
      exact hcount.trans (by decide)
    exact ⟨_, .inl ⟨hinteger.mpr hscale, rfl⟩, tokenize_number (p := ⟨.integer, _, hspells⟩) rfl
      (fun _ ↦ hlength) (hlines _ (.inl hspells))⟩
  · have hfraction := not_le.mpr hscale
    exact ⟨_, .inr ⟨fun hwhole ↦ hfraction (hinteger.mp hwhole), rfl⟩,
      tokenize_number (p := ⟨.fraction, _, hspells⟩) rfl (fun hform ↦ Form.noConfusion hform)
        (hlines _ (.inr hspells))⟩

/-! ### Printed numbers -/

theorem text_of_finite (h : Double.ofFloat x = .finite negative m q) :
    Value.text (.float x) =
      .ok (String.ofList (withSign negative ((shortest m q).positional []))) :=
  congrArg Except.ok (write_eq (l := Value.printLayout) h)

theorem denoted_positional_nil (d : Decimal) : denoted (d.positional []) = d.value := by
  obtain ⟨hspells, hvalue⟩ := positional_nil_spells d
  rw [denoted_mantissa (exponent_not_mem (hspells.imp And.right And.right)), hvalue]

theorem head?_positional_nil (d : Decimal) : ∃ c ∈ (d.positional []).head?, isDigit c = true := by
  have hfirst := first_of_spells ((positional_nil_spells d).1.imp And.right And.right) []
  rwa [List.append_nil] at hfirst

end

/-- The text that is printed for a finite number is the text of its literal with all digits in their
places, without a point and a zero at the end. It denotes the same decimal, its digits have no
superfluous zeros on either side and are one numeral, and other numbers have other texts. -/
theorem printed_exactly :
    (∀ (x : Float) (negative : Bool) (m : ℕ) (q : ℤ), Double.ofFloat x = .finite negative m q →
      ∃ literal digits, Value.literalText (.float x) = .ok (String.ofList literal) ∧
        Value.text (.float x) = .ok (String.ofList (withSign negative digits)) ∧
        Tidy digits ∧ withSign negative digits = expanded literal ∧
        signedDenoted (withSign negative digits) = signedDenoted literal ∧
        ∃ value, IsLiteralOf x digits value ∧ tokenize (String.ofList digits) =
          .ok [⟨.number, String.ofList digits, value, 1⟩, ⟨.endOfText, "", .nil, 1⟩]) ∧
    ∀ (x y : Float) (negative negative' : Bool) (m m' : ℕ) (q q' : ℤ),
      Double.ofFloat x = .finite negative m q → Double.ofFloat y = .finite negative' m' q' →
        x ≠ y → Value.text (.float x) ≠ Value.text (.float y) := by
  refine ⟨fun x negative m q h ↦ ?_, fun x y negative negative' m m' q q' hx hy hne heq ↦ ?_⟩
  · obtain ⟨hcanonical, -⟩ := canonical_of_finite h
    obtain ⟨hnumeral, hvalue⟩ := digits_spells (l := Value.literalLayout) rfl (shortest m q)
    refine ⟨_, _, congrArg Except.ok (write_eq h), text_of_finite h, tidy_shortest hcanonical, ?_, ?_,
      tokenize_digits h⟩
    · rw [expanded, splitMinus_withSign negative hnumeral.first,
        ← positional_nil_eq rfl hcanonical]
    · rw [signedDenoted_withSign negative hnumeral.first, hvalue,
        signedDenoted_withSign negative (head?_positional_nil _), denoted_positional_nil]
  · obtain ⟨hcanonical, -⟩ := canonical_of_finite hx
    obtain ⟨hcanonical', -⟩ := canonical_of_finite hy
    rw [text_of_finite hx, text_of_finite hy] at heq
    have hsplit := congrArg splitMinus (String.ofList_injective (Except.ok.inj heq))
    rw [splitMinus_withSign negative (head?_positional_nil _),
      splitMinus_withSign negative' (head?_positional_nil _)] at hsplit
    obtain ⟨rfl, hdigits⟩ := Prod.mk.inj hsplit
    have hvalue := congrArg denoted hdigits
    rw [denoted_positional_nil, denoted_positional_nil] at hvalue
    obtain ⟨rfl, rfl⟩ := eq_of_value_shortest_eq hcanonical hcanonical' hvalue
    exact hne (eq_of_finite_eq hx hy)

theorem printed_exactly_of_exponent :
    Double.ofFloat 1.5e-7 = .finite false 5666839779443574 (-75) ∧
      Double.ofFloat (-1e22) = .finite true 4768371582031250 21 ∧
      Value.literalText (.float 1.5e-7) = .ok "1.5e-07" ∧
      Value.text (.float 1.5e-7) = .ok "0.00000015" ∧ Tidy "0.00000015".toList ∧
      "0.00000015".toList = expanded "1.5e-07".toList ∧
      signedDenoted "0.00000015".toList = signedDenoted "1.5e-07".toList ∧
      (∃ value, IsLiteralOf 1.5e-7 "0.00000015".toList value ∧ tokenize "0.00000015" =
        .ok [⟨.number, "0.00000015", value, 1⟩, ⟨.endOfText, "", .nil, 1⟩]) ∧
      Value.text (.float 1.5e-7) ≠ Value.text (.float (-1e22)) := by
  have hx : Double.ofFloat 1.5e-7 = .finite false 5666839779443574 (-75) := by decide +kernel
  have hy : Double.ofFloat (-1e22) = .finite true 4768371582031250 21 := by decide +kernel
  have hwritten : Value.literalText (.float 1.5e-7) = .ok "1.5e-07" := by decide +kernel
  have hprinted : Value.text (.float 1.5e-7) = .ok "0.00000015" := by decide +kernel
  obtain ⟨hall, hdistinct⟩ := printed_exactly
  obtain ⟨literal, digits, hliteral, htext, htidy, hexpanded, hdenoted, htoken⟩ := hall _ _ _ _ hx
  obtain rfl : "1.5e-07".toList = literal :=
    String.ofList_injective (Except.ok.inj (hwritten.symm.trans hliteral))
  obtain rfl : "0.00000015".toList = digits :=
    String.ofList_injective (Except.ok.inj (hprinted.symm.trans htext))
  exact ⟨hx, hy, hwritten, hprinted, htidy, hexpanded, hdenoted, htoken,
    hdistinct _ _ _ _ _ _ _ _ hx hy (fun heq ↦ by rw [heq, hy] at hx; cases hx)⟩

end Decimal

end LoxLang
