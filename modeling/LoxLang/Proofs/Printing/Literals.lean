import LoxLang.Proofs.Decimal.Reading
import LoxLang.Proofs.Printing.Plain

/-!
The texts of literals in a prefix form.

The text of a literal shows its variant (`Value.Plain.variant_eq`), and within a variant it shows
the value. So different literals of a text are written differently
(`Value.Plain.eq_of_literalText`), and none is written as a name (`Token.IsName.ne_literalText`).
-/

set_option autoImplicit false
set_option relaxedAutoImplicit false

namespace LoxLang

open Source Token.Kind Decimal

/-- A text without blanks and closing parentheses that begins with a letter or a digit. -/
structure Bare (text : List Char) : Prop where
  first : ∃ c ∈ text.head?, isAlphaNumeric c = true
  plain : ∀ c ∈ text, c ≠ ' ' ∧ c ≠ ')'

theorem ne_of_isAlphaNumeric {c d : Char} (hc : isAlphaNumeric c = true)
    (hd : isAlphaNumeric d = false) : c ≠ d := by
  rintro rfl
  simp [hc] at hd

/-- The text consists of letters and digits. -/
theorem bare_of_isAlphaNumeric {text : List Char} (hne : text ≠ [])
    (h : ∀ c ∈ text, isAlphaNumeric c = true) : Bare text := by
  obtain ⟨c, cs, rfl⟩ := List.exists_cons_of_ne_nil hne
  refine ⟨⟨c, rfl, h c (by simp)⟩, fun d hd ↦ ?_⟩
  exact ⟨ne_of_isAlphaNumeric (h d hd) (by decide), ne_of_isAlphaNumeric (h d hd) (by decide)⟩

theorem isAlphaNumeric_of_isDigit {c : Char} (h : isDigit c = true) : isAlphaNumeric c = true := by
  simp [isAlphaNumeric, h]

theorem Decimal.Numeral.bare {text : List Char} (h : Numeral text) : Bare text := by
  obtain ⟨c, hc, hdigit⟩ := h.first
  refine ⟨⟨c, hc, isAlphaNumeric_of_isDigit hdigit⟩, fun d hd ↦ ?_⟩
  rcases h.plain d hd with hdigit | hmark
  · exact ⟨ne_of_isAlphaNumeric (isAlphaNumeric_of_isDigit hdigit) (by decide),
      ne_of_isAlphaNumeric (isAlphaNumeric_of_isDigit hdigit) (by decide)⟩
  · have hmarks : ∀ d ∈ ['.', 'e', '+', '-'], d ≠ ' ' ∧ d ≠ ')' := by simp
    exact hmarks d hmark

namespace Value

variable {v v' : Value} {x : Float} {n : ℤ} {text : String}

/-! ### The texts -/

theorem Plain.integerText_eq (h : (integer n).Plain) :
    ∃ k : ℕ, n = k ∧ integerText n = .ok (String.ofList (Nat.toDigits 10 k)) := by
  obtain ⟨k, rfl, hshort⟩ := h
  refine ⟨k, rfl, ?_⟩
  simp [integerText, hshort]

theorem Plain.exists_literalText (h : v.Plain) : ∃ text, v.literalText = .ok text := by
  cases v with
  | integer n =>
    obtain ⟨k, -, htext⟩ := h.integerText_eq
    exact ⟨_, htext⟩
  | _ => exact ⟨_, rfl⟩

theorem Plain.numeral_write (h : (float x).Plain) (hfinite : (float x).isOverflow = false) :
    Numeral (literalLayout.write x).toList := by
  rcases ofFloat_cases h with hinfinite | ⟨m, q, hvalue, -⟩
  · simp [isOverflow, hinfinite] at hfinite
  · exact (write_finite rfl hvalue).1

/-! ### The variant of a literal -/

/-- What the text of a literal shows of it. -/
def variantOf (text : List Char) : Variant :=
  if text = "nil".toList then .none
  else if text = "true".toList ∨ text = "false".toList then .bool
  else if text.head? = some '"' then .string
  else if '.' ∈ text ∨ 'e' ∈ text then .float
  else .integer

theorem variantOf_of_isDigit {text : List Char} (h : ∃ c ∈ text.head?, isDigit c = true) :
    variantOf text = if '.' ∈ text ∨ 'e' ∈ text then .float else .integer := by
  obtain ⟨c, hc, hdigit⟩ := h
  obtain ⟨cs, rfl⟩ := List.head?_eq_some_iff.mp hc
  have hne (d : Char) (hd : isDigit d = false) : c ≠ d := by
    rintro rfl
    simp [hdigit] at hd
  simp [variantOf, hne 'n' (by decide), hne 't' (by decide), hne 'f' (by decide),
    hne '"' (by decide)]

theorem first_toDigits (k : ℕ) : ∃ c ∈ (Nat.toDigits 10 k).head?, isDigit c = true := by
  have hdigits := digits_toDigits k
  obtain ⟨c, cs, hcs⟩ := List.exists_cons_of_ne_nil (@Nat.toDigits_ne_nil k 10)
  rw [hcs] at hdigits ⊢
  exact ⟨c, rfl, hdigits c (by simp)⟩

/-- The text of a literal shows its variant. -/
theorem Plain.variant_eq (h : v.Plain) (hfinite : v.isOverflow = false)
    (htext : v.literalText = .ok text) : v.variant = variantOf text.toList := by
  cases v with
  | nil =>
    obtain rfl := Except.ok.inj htext
    decide
  | bool b =>
    obtain rfl := Except.ok.inj htext
    cases b <;> decide
  | integer n =>
    obtain ⟨k, -, hk⟩ := h.integerText_eq
    obtain rfl := Except.ok.inj (hk.symm.trans htext)
    have hdigits := digits_toDigits k
    rw [String.toList_ofList, variantOf_of_isDigit, if_neg]
    · rfl
    · rintro (hmem | hmem) <;> exact absurd (hdigits _ hmem) (by decide)
    · exact first_toDigits k
  | float x =>
    obtain rfl := Except.ok.inj htext
    have hnumeral := h.numeral_write hfinite
    rw [variantOf_of_isDigit hnumeral.first, if_pos hnumeral.marked]
    rfl
  | string s =>
    obtain rfl := Except.ok.inj htext
    simp [variantOf, variant]

/-- Different literals are written differently. -/
theorem Plain.eq_of_literalText (h : v.Plain) (hfinite : v.isOverflow = false) (h' : v'.Plain)
    (hfinite' : v'.isOverflow = false) (htext : v.literalText = .ok text)
    (htext' : v'.literalText = .ok text) : v = v' := by
  have hvariant : v.variant = v'.variant :=
    (h.variant_eq hfinite htext).trans (h'.variant_eq hfinite' htext').symm
  have hsame := htext.trans htext'.symm
  cases v <;> cases v' <;> cases hvariant
  case nil.nil => rfl
  case bool.bool b b' =>
    cases b <;> cases b' <;> simp [literalText] at hsame ⊢
  case integer.integer n n' =>
    obtain ⟨k, rfl, hk⟩ := h.integerText_eq
    obtain ⟨k', rfl, hk'⟩ := h'.integerText_eq
    have hdigits := String.ofList_injective (Except.ok.inj (hk.symm.trans (hsame.trans hk')))
    have hnumbers := congrArg Piece.numberOf hdigits
    rw [numberOf_toDigits, numberOf_toDigits] at hnumbers
    rw [hnumbers]
  case float.float x x' =>
    rw [eq_of_write_eq rfl h h' (Except.ok.inj hsame)]
  case string.string s s' =>
    have hquoted := congrArg String.toList (Except.ok.inj hsame)
    rw [show s = s' from String.toList_injective (by simpa using hquoted)]

theorem bare_toDigits (k : ℕ) : Bare (Nat.toDigits 10 k) :=
  bare_of_isAlphaNumeric Nat.toDigits_ne_nil fun c hc ↦
    isAlphaNumeric_of_isDigit (digits_toDigits k c hc)

/-- Literals other than strings are written without blanks and parentheses. -/
theorem Plain.bare (h : v.Plain) (hfinite : v.isOverflow = false)
    (htext : v.literalText = .ok text) (hstring : v.variant ≠ .string) : Bare text.toList := by
  cases v with
  | nil =>
    obtain rfl := Except.ok.inj htext
    exact bare_of_isAlphaNumeric (by decide) (List.all_eq_true.mp (by decide))
  | bool b =>
    obtain rfl := Except.ok.inj htext
    cases b <;> exact bare_of_isAlphaNumeric (by decide) (List.all_eq_true.mp (by decide))
  | integer n =>
    obtain ⟨k, -, hk⟩ := h.integerText_eq
    obtain rfl := Except.ok.inj (hk.symm.trans htext)
    rw [String.toList_ofList]
    exact bare_toDigits k
  | float x =>
    obtain rfl := Except.ok.inj htext
    exact (h.numeral_write hfinite).bare
  | string s => exact absurd rfl hstring

end Value

namespace Token.IsName

variable {t : Token}

theorem exists_letters (h : t.IsName) : ∃ c cs, t.lexeme.toList = c :: cs ∧ isAlpha c = true ∧
    ∀ x ∈ cs, isAlphaNumeric x = true := by
  have hspells := (h.lexed.word h.kind).1
  generalize t.lexeme.toList = text at hspells
  cases hspells with
  | word hc hcs => exact ⟨_, _, rfl, hc, hcs⟩

theorem bare (h : t.IsName) : Bare t.lexeme.toList := by
  obtain ⟨c, cs, hletters, hc, hcs⟩ := h.exists_letters
  rw [hletters]
  refine bare_of_isAlphaNumeric (by simp) (List.forall_mem_cons.mpr ⟨?_, hcs⟩)
  simp [isAlphaNumeric, hc]

/-- No literal is written as a name. -/
theorem ne_literalText (h : t.IsName) {v : Value} (hv : v.Plain) (hfinite : v.isOverflow = false) :
    v.literalText ≠ .ok t.lexeme := by
  intro htext
  have hkind := (h.lexed.word h.kind).2
  have hfirst : ∀ d ∈ t.lexeme.toList.head?, isAlpha d = true := by
    obtain ⟨c, cs, hletters, hc, -⟩ := h.exists_letters
    rw [hletters]
    rintro d hd
    obtain rfl := Option.some.inj hd
    exact hc
  have hdigit : ¬ ∃ d ∈ t.lexeme.toList.head?, isDigit d = true := by
    rintro ⟨d, hd, hdigit⟩
    rw [isDigit_of_isAlpha (hfirst d hd)] at hdigit
    cases hdigit
  cases v with
  | nil =>
    rw [← Except.ok.inj htext] at hkind
    exact absurd hkind (by decide)
  | bool b =>
    rw [← Except.ok.inj htext] at hkind
    cases b <;> exact absurd hkind (by decide)
  | integer n =>
    obtain ⟨k, -, hk⟩ := hv.integerText_eq
    rw [← Except.ok.inj (hk.symm.trans htext), String.toList_ofList] at hdigit
    exact hdigit (Value.first_toDigits k)
  | float x =>
    rw [← Except.ok.inj htext] at hdigit
    exact hdigit (hv.numeral_write hfinite).first
  | string s =>
    rw [← Except.ok.inj htext] at hfirst
    exact absurd (hfirst '"' (by simp)) (by decide)

end Token.IsName

end LoxLang
