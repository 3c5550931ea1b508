import LoxLang.Proofs.Pieces

/-!
The longest piece is recognised by the two characters after it.

What a piece begins with fixes what kind of piece it is (`Form.opening`), so a piece can only be
made longer by a character of its own kind. `Form.Ends` lists these characters form by form, and
`leads_iff_ends` says that the characters after a piece decide whether it is the longest one.
-/

set_option autoImplicit false
set_option relaxedAutoImplicit false

namespace LoxLang.Source

/-! ### Runs of characters -/

/-- A run of characters with a property ends where a character without it follows. -/
theorem takeWhile_append_of_ends {p : Char → Bool} {us vs : List Char}
    (hus : ∀ c ∈ us, p c = true) (hvs : ∀ c ∈ vs.head?, p c = false) :
    (us ++ vs).takeWhile p = us := by
  rw [List.takeWhile_append_of_pos hus]
  cases vs with
  | nil => simp
  | cons v vs => simp [hvs v rfl]

theorem dropWhile_append_of_ends {p : Char → Bool} {us vs : List Char}
    (hus : ∀ c ∈ us, p c = true) (hvs : ∀ c ∈ vs.head?, p c = false) :
    (us ++ vs).dropWhile p = vs := by
  have happend := List.takeWhile_append_dropWhile (p := p) (l := us ++ vs)
  rw [takeWhile_append_of_ends hus hvs] at happend
  exact List.append_cancel_left happend

theorem eq_of_append_eq_append_of_ends {p : Char → Bool} {us vs us' vs' : List Char}
    (hus : ∀ c ∈ us, p c = true) (hvs : ∀ c ∈ vs.head?, p c = false)
    (hus' : ∀ c ∈ us', p c = true) (hvs' : ∀ c ∈ vs'.head?, p c = false)
    (h : us ++ vs = us' ++ vs') : us = us' ∧ vs = vs' := by
  have hrun : us = us' := by
    rw [← takeWhile_append_of_ends hus hvs, h, takeWhile_append_of_ends hus' hvs']
  exact ⟨hrun, List.append_cancel_left (hrun ▸ h)⟩

theorem bne_of_not_mem {c : Char} {us : List Char} (h : c ∉ us) : ∀ d ∈ us, (d != c) = true := by
  intro d hd
  exact bne_iff_ne.mpr (ne_of_mem_of_not_mem hd h)

/-- The first of some characters divides a text in one way. -/
theorem eq_of_append_cons_eq {us vs us' vs' : List Char} {c : Char} (hus : c ∉ us)
    (hus' : c ∉ us') (h : us ++ c :: vs = us' ++ c :: vs') : us = us' ∧ vs = vs' := by
  have hends (rest : List Char) : ∀ d ∈ (c :: rest).head?, (d != c) = false := by simp
  obtain ⟨rfl, hrest⟩ := eq_of_append_eq_append_of_ends (bne_of_not_mem hus) (hends vs)
    (bne_of_not_mem hus') (hends vs') h
  exact ⟨rfl, List.tail_eq_of_cons_eq hrest⟩

theorem append_eq_of_append_cons_eq {α : Type} {us vs xs : List α} {x a : α}
    (h : us ++ x :: xs = vs ++ [a]) : vs = us ++ (x :: xs).dropLast := by
  have hlast := congrArg List.dropLast h
  rw [List.dropLast_concat, List.dropLast_append_of_ne_nil (by simp)] at hlast
  exact hlast.symm

/-- Whether a star and a slash come before another star does not depend on what follows that. -/
theorem star_slash_prefix_append {c : Char} {body xs : List Char} (ys : List Char)
    (h : ['*', '/'] <+: c :: (body ++ '*' :: xs)) : ['*', '/'] <+: c :: (body ++ '*' :: ys) := by
  cases body with
  | nil => simp at h
  | cons d ds => simpa using h

theorem isDigit_of_isAlpha {c : Char} (h : isAlpha c = true) : isDigit c = false := by
  by_contra hdigit
  simp only [isDigit, Bool.not_eq_false, Bool.and_eq_true, decide_eq_true_eq, Char.le_def,
    UInt32.le_iff_toNat_le] at hdigit
  have hunderscore : c ≠ '_' := by
    rintro rfl
    exact absurd hdigit (by decide)
  simp only [isAlpha, Bool.or_eq_true, Bool.and_eq_true, decide_eq_true_eq, Char.le_def,
    UInt32.le_iff_toNat_le, beq_iff_eq, hunderscore, or_false] at h
  have hlower : 'a'.val.toNat = 97 := rfl
  have hupper : 'A'.val.toNat = 65 := rfl
  have hnine : '9'.val.toNat = 57 := rfl
  omega

namespace Piece

open Token.Kind

/-! ### The first character -/

/-- Kinds of first characters. -/
inductive Opening
  | operator
  | slash
  | quote
  | digit
  | letter
  | blank
  deriving DecidableEq, Repr

def operators : List Char :=
  ['(', ')', '\x7b', '\x7d', ',', '.', '-', '+', ';', '*', '!', '=', '<', '>']

/-- What kind of piece begins with a character, if any does. -/
def Opening.of? (c : Char) : Option Opening :=
  if c ∈ operators then some operator
  else if c = '/' then some slash
  else if c = '"' then some quote
  else if c ∈ blanks then some blank
  else if isDigit c then some digit
  else if isAlpha c then some letter
  else none

def Form.opening : Form → Opening
  | mark slash | lineComment | blockComment => .slash
  | mark _ => .operator
  | string => .quote
  | integer | fraction => .digit
  | word => .letter
  | blank => .blank

/-- No digit and no letter begins a piece of another kind. -/
theorem isAlphaNumeric_of_mem :
    ∀ c ∈ operators ++ '/' :: '"' :: blanks, isAlphaNumeric c = false := by
  simp [operators, blanks, isAlphaNumeric, isAlpha, isDigit]

theorem Opening.of?_of_isAlphaNumeric {c : Char} (h : isAlphaNumeric c = true) :
    of? c = if isDigit c then some digit else some letter := by
  have hplain : c ∉ operators ++ '/' :: '"' :: blanks := by
    intro hc
    exact absurd h (by simp [isAlphaNumeric_of_mem c hc])
  simp only [List.mem_append, List.mem_cons, not_or] at hplain
  obtain ⟨hoperator, hslash, hquote, hblank⟩ := hplain
  rw [of?, if_neg hoperator, if_neg hslash, if_neg hquote, if_neg hblank]
  by_cases hdigit : isDigit c
  · rw [if_pos hdigit, if_pos hdigit]
  · have halpha : isAlpha c = true := by simpa [isAlphaNumeric, hdigit] using h
    rw [if_neg hdigit, if_neg hdigit, if_pos halpha]

theorem Opening.of?_of_isDigit {c : Char} (h : isDigit c = true) : of? c = some digit := by
  rw [of?_of_isAlphaNumeric (by simp [isAlphaNumeric, h]), if_pos h]

theorem Opening.of?_of_isAlpha {c : Char} (h : isAlpha c = true) : of? c = some letter := by
  rw [of?_of_isAlphaNumeric (by simp [isAlphaNumeric, h]), isDigit_of_isAlpha h]
  simp

theorem head?_of_mem_marks : ∀ m ∈ marks,
    m.2.head?.bind Opening.of? = some (Form.mark m.1).opening := by
  decide

theorem of?_of_mem_blanks : ∀ c ∈ blanks, Opening.of? c = some .blank := by
  simp [blanks, Opening.of?, operators]

/-- A piece is not empty, and its first character shows its kind. -/
theorem Form.Spells.opening {form : Form} {text : List Char} (h : form.Spells text) :
    text.head?.bind Opening.of? = some form.opening := by
  induction h with
  | mark h => exact head?_of_mem_marks _ h
  | string _ => rfl
  | @integer digits hne h =>
    obtain ⟨c, cs, rfl⟩ := List.exists_cons_of_ne_nil hne
    exact Opening.of?_of_isDigit (h c (by simp))
  | @fraction whole part hwhole _ hw _ =>
    obtain ⟨c, cs, rfl⟩ := List.exists_cons_of_ne_nil hwhole
    exact Opening.of?_of_isDigit (hw c (by simp))
  | word hc _ => exact Opening.of?_of_isAlpha hc
  | blank h => exact of?_of_mem_blanks _ h
  | lineComment _ => rfl
  | blockComment _ => rfl

theorem Form.Spells.ne_nil {form : Form} {text : List Char} (h : form.Spells text) :
    text ≠ [] := by
  rintro rfl
  exact absurd h.opening (by simp)

theorem Form.Spells.opening_eq {s s' : Form} {text more : List Char} (h : s.Spells text)
    (h' : s'.Spells (text ++ more)) : s'.opening = s.opening := by
  obtain ⟨c, cs, rfl⟩ := List.exists_cons_of_ne_nil h.ne_nil
  have heq := h'.opening.symm.trans h.opening
  exact Option.some.inj heq

section Forms

variable {form : Form}

theorem Form.eq_mark_of_opening (h : form.opening = .operator) : ∃ kind, form = mark kind := by
  cases form with
  | mark kind => exact ⟨kind, rfl⟩
  | _ => cases h

theorem Form.eq_of_opening_slash (h : form.opening = .slash) :
    form = mark slash ∨ form = lineComment ∨ form = blockComment := by
  cases form with
  | mark kind => cases kind <;> first | exact .inl rfl | cases h
  | lineComment => exact .inr (.inl rfl)
  | blockComment => exact .inr (.inr rfl)
  | _ => cases h

theorem Form.eq_string_of_opening (h : form.opening = .quote) : form = string := by
  cases form with
  | string => rfl
  | mark kind => cases kind <;> cases h
  | _ => cases h

theorem Form.eq_of_opening_digit (h : form.opening = .digit) :
    form = integer ∨ form = fraction := by
  cases form with
  | integer => exact .inl rfl
  | fraction => exact .inr rfl
  | mark kind => cases kind <;> cases h
  | _ => cases h

theorem Form.eq_word_of_opening (h : form.opening = .letter) : form = word := by
  cases form with
  | word => rfl
  | mark kind => cases kind <;> cases h
  | _ => cases h

theorem Form.eq_blank_of_opening (h : form.opening = .blank) : form = blank := by
  cases form with
  | blank => rfl
  | mark kind => cases kind <;> cases h
  | _ => cases h

theorem Form.opening_mark (kind : Token.Kind) :
    kind = slash ∧ (mark kind).opening = .slash ∨ (mark kind).opening = .operator := by
  cases kind <;> first | exact .inl ⟨rfl, rfl⟩ | exact .inr rfl

end Forms

/-! ### What ends a piece -/

/-- What follows a piece of the form is no part of a longer one. -/
def Form.Ends : Form → List Char → Prop
  | mark kind, rest =>
    (kind ∈ [bang, equal, greater, less] → rest.head? ≠ some '=') ∧
      (kind = slash → rest.head? ≠ some '/' ∧ rest.head? ≠ some '*')
  | integer, rest =>
    (∀ c ∈ rest.head?, isDigit c = false) ∧
      (rest.head? = some '.' → ∀ c ∈ rest.tail.head?, isDigit c = false)
  | fraction, rest => ∀ c ∈ rest.head?, isDigit c = false
  | word, rest => ∀ c ∈ rest.head?, isAlphaNumeric c = false
  | lineComment, rest => ∀ c ∈ rest.head?, c = '\n'
  | string, _ | blank, _ | blockComment, _ => True

instance Form.decidableEnds (form : Form) (rest : List Char) : Decidable (form.Ends rest) :=
  match form with
  | mark _ => inferInstanceAs (Decidable (_ ∧ _))
  | integer =>
    have : Decidable (∀ c ∈ rest.head?, isDigit c = false) := rest.head?.decidableForallMem
    have : Decidable (∀ c ∈ rest.tail.head?, isDigit c = false) :=
      rest.tail.head?.decidableForallMem
    inferInstanceAs (Decidable (_ ∧ _))
  | fraction => rest.head?.decidableForallMem
  | word => rest.head?.decidableForallMem
  | lineComment => rest.head?.decidableForallMem
  | string | blank | blockComment => inferInstanceAs (Decidable True)

/-- A mark is only continued to another mark by an equals sign. -/
theorem eq_of_mem_marks_append : ∀ m ∈ marks, ∀ m' ∈ marks, m.2 <+: m'.2 →
    m.2 = m'.2 ∨ m.1 ∈ [bang, equal, greater, less] ∧ m'.2 = m.2 ++ ['='] := by
  decide

theorem mem_marks_append_equal : ∀ m ∈ marks, m.1 ∈ [bang, equal, greater, less] →
    ∃ m' ∈ marks, m'.2 = m.2 ++ ['='] := by
  decide

/-- An operator that can be joined with an equals sign cannot be joined with another one. -/
theorem marks_of_mem_operators : ∀ c ∈ operators, ∃ m ∈ marks, m.2 = [c] ∧ m.1 ≠ slash ∧
    (m.1 ∈ [bang, equal, greater, less] →
      ∃ m' ∈ marks, m'.2 = [c, '='] ∧ m'.1 ∉ slash :: [bang, equal, greater, less]) := by
  simp [operators, marks]

theorem eq_of_mem_marks_slash : ∀ m ∈ marks, m.1 = slash → m.2 = ['/'] := by
  decide

theorem Form.Spells.eq_of_slash {text : List Char} (h : (Form.mark slash).Spells text) :
    text = ['/'] := by
  obtain ⟨hm⟩ := h
  exact eq_of_mem_marks_slash _ hm rfl

section Longer

variable {s : Form} {rest xs : List Char} {x : Char}

theorem not_spells_mark_append {kind : Token.Kind} {text : List Char} (h : (kind, text) ∈ marks)
    (hends : (Form.mark kind).Ends (x :: rest)) : ¬ s.Spells (text ++ x :: xs) := by
  intro h'
  have hopening := (Form.Spells.mark h).opening_eq h'
  generalize hlong : text ++ x :: xs = long at h'
  have hmark : ∀ kind', ¬ (Form.mark kind').Spells long := by
    rintro kind' ⟨hkind'⟩
    rcases eq_of_mem_marks_append _ h _ hkind' ⟨_, hlong⟩ with heq | ⟨hjoin, heq⟩
    · simp [← hlong] at heq
    · have hx : x = '=' ∧ xs = [] := by simpa [← hlong] using heq
      exact hends.1 hjoin (by simp [hx])
  rcases Form.opening_mark kind with ⟨rfl, hslash⟩ | hoperator
  · obtain rfl : text = ['/'] := eq_of_mem_marks_slash _ h rfl
    rcases Form.eq_of_opening_slash (hopening.trans hslash) with rfl | rfl | rfl
    · exact hmark _ h'
    · cases h' with
      | lineComment => exact (hends.2 rfl).1 (by simp_all)
    · cases h' with
      | blockComment => exact (hends.2 rfl).2 (by simp_all)
  · obtain ⟨kind', rfl⟩ := Form.eq_mark_of_opening (hopening.trans hoperator)
    exact hmark _ h'

theorem not_spells_string_append {body : List Char} (h : '"' ∉ body) :
    ¬ s.Spells ('"' :: body ++ ['"'] ++ x :: xs) := by
  intro h'
  obtain rfl := Form.eq_string_of_opening ((Form.Spells.string h).opening_eq h')
  generalize hlong : '"' :: body ++ ['"'] ++ x :: xs = long at h'
  cases h' with
  | @string body' hbody' =>
    have heq : (body ++ ['"']) ++ x :: xs = body' ++ ['"'] := by simpa using hlong
    refine hbody' ?_
    rw [append_eq_of_append_cons_eq heq]
    simp

theorem not_spells_integer_append {digits : List Char} (hne : digits ≠ [])
    (h : ∀ c ∈ digits, isDigit c = true) (hends : Form.integer.Ends (x :: rest))
    (hxs : xs <+: rest) : ¬ s.Spells (digits ++ x :: xs) := by
  intro h'
  have hx : isDigit x = false := hends.1 x rfl
  have hopening := (Form.Spells.integer hne h).opening_eq h'
  generalize hlong : digits ++ x :: xs = long at h'
  rcases Form.eq_of_opening_digit hopening with rfl | rfl
  · cases h' with
    | integer _ hlonger =>
      have hdigit : isDigit x = true := hlonger x (by simp [← hlong])
      simp [hx] at hdigit
  · -- The point of a longer piece is followed by a digit.
    cases h' with
    | @fraction whole part _ hpart hw hp =>
      obtain ⟨-, hrest⟩ := eq_of_append_eq_append_of_ends h (by simpa using hx) hw
        (by simp [isDigit]) hlong
      obtain ⟨rfl, rfl⟩ := List.cons.inj hrest
      obtain ⟨d, ds, rfl⟩ := List.exists_cons_of_ne_nil hpart
      obtain ⟨more, rfl⟩ := hxs
      have hd : isDigit d = false := hends.2 rfl d rfl
      simp [hp d (by simp)] at hd

theorem not_spells_fraction_append {whole part : List Char} (hwhole : whole ≠ [])
    (hpart : part ≠ []) (hw : ∀ c ∈ whole, isDigit c = true) (hp : ∀ c ∈ part, isDigit c = true)
    (hends : Form.fraction.Ends (x :: rest)) : ¬ s.Spells (whole ++ '.' :: part ++ x :: xs) := by
  intro h'
  have hx : isDigit x = false := hends x rfl
  have hopening := (Form.Spells.fraction hwhole hpart hw hp).opening_eq h'
  generalize hlong : whole ++ '.' :: part ++ x :: xs = long at h'
  rcases Form.eq_of_opening_digit hopening with rfl | rfl
  · cases h' with
    | integer _ hlonger =>
      have hpoint : isDigit '.' = true := hlonger '.' (by simp [← hlong])
      exact absurd hpoint (by decide)
  · cases h' with
    | @fraction whole' part' _ _ hw' hp' =>
      have heq : whole ++ '.' :: (part ++ x :: xs) = whole' ++ '.' :: part' := by
        simpa using hlong
      obtain ⟨-, hrest⟩ := eq_of_append_eq_append_of_ends hw (by simp [isDigit]) hw'
        (by simp [isDigit]) heq
      obtain ⟨-, rfl⟩ := List.cons.inj hrest
      have hdigit := hp' x (by simp)
      simp [hx] at hdigit

theorem not_spells_word_append {c : Char} {cs : List Char} (hc : isAlpha c = true)
    (hcs : ∀ c ∈ cs, isAlphaNumeric c = true) (hends : Form.word.Ends (x :: rest)) :
    ¬ s.Spells (c :: cs ++ x :: xs) := by
  intro h'
  obtain rfl := Form.eq_word_of_opening ((Form.Spells.word hc hcs).opening_eq h')
  have hx : isAlphaNumeric x = false := hends x rfl
  cases h' with
  | word hc' hcs' =>
    have hletter := hcs' x (by simp)
    simp [hx] at hletter

theorem not_spells_blank_append {c : Char} (h : c ∈ blanks) : ¬ s.Spells ([c] ++ x :: xs) := by
  intro h'
  obtain rfl := Form.eq_blank_of_opening ((Form.Spells.blank h).opening_eq h')
  cases h'

theorem not_spells_lineComment_append {body : List Char} (h : '\n' ∉ body)
    (hends : Form.lineComment.Ends (x :: rest)) : ¬ s.Spells ('/' :: '/' :: body ++ x :: xs) := by
  intro h'
  have hx : x = '\n' := hends x rfl
  have hopening := (Form.Spells.lineComment h).opening_eq h'
  generalize hlong : '/' :: '/' :: body ++ x :: xs = long at h'
  rcases Form.eq_of_opening_slash hopening with rfl | rfl | rfl
  · simp [h'.eq_of_slash] at hlong
  · cases h' with
    | @lineComment body' hbody' =>
      have heq : body ++ x :: xs = body' := by simpa using hlong
      exact hbody' (by simp [← heq, hx])
  · cases h' with
    | blockComment => simp at hlong

theorem not_spells_blockComment_append {body : List Char} (h : ¬ ['*', '/'] <:+: body ++ ['*']) :
    ¬ s.Spells ('/' :: '*' :: body ++ ['*', '/'] ++ x :: xs) := by
  intro h'
  have hopening := (Form.Spells.blockComment h).opening_eq h'
  generalize hlong : '/' :: '*' :: body ++ ['*', '/'] ++ x :: xs = long at h'
  rcases Form.eq_of_opening_slash hopening with rfl | rfl | rfl
  · simp [h'.eq_of_slash] at hlong
  · cases h' with
    | lineComment => simp at hlong
  · cases h' with
    | @blockComment body' hbody' =>
      have heq : (body ++ ['*', '/']) ++ x :: xs = (body' ++ ['*']) ++ ['/'] := by
        simpa using hlong
      refine hbody' ?_
      rw [append_eq_of_append_cons_eq heq]
      exact ⟨body, _, rfl⟩

end Longer

/-- A piece that is followed by what ends it is not the beginning of a longer piece. -/
theorem Form.Spells.not_spells_append {s s' : Form} {text rest : List Char} {x : Char}
    {xs : List Char} (h : s.Spells text) (hends : s.Ends (x :: rest)) (hxs : xs <+: rest) :
    ¬ s'.Spells (text ++ x :: xs) := by
  cases h with
  | mark hm => exact not_spells_mark_append hm hends
  | string hbody => exact not_spells_string_append hbody
  | integer hne h => exact not_spells_integer_append hne h hends hxs
  | fraction hwhole hpart hw hp => exact not_spells_fraction_append hwhole hpart hw hp hends
  | word hc hcs => exact not_spells_word_append hc hcs hends
  | blank hc => exact not_spells_blank_append hc
  | lineComment hbody => exact not_spells_lineComment_append hbody hends
  | blockComment hbody => exact not_spells_blockComment_append hbody

theorem singleton_prefix_of_mem_head? {rest : List Char} {c : Char} (h : c ∈ rest.head?) :
    [c] <+: rest := by
  obtain ⟨tail, rfl⟩ := List.head?_eq_some_iff.mp h
  exact ⟨tail, rfl⟩

/-- A piece that is not the beginning of a longer piece is followed by what ends it. -/
theorem Form.Spells.ends {s : Form} {text rest : List Char} (h : s.Spells text)
    (hslash : s = .mark slash → rest.head? ≠ some '/' ∧ rest.head? ≠ some '*')
    (hmax : ∀ s' x xs, x :: xs <+: rest → ¬ Form.Spells s' (text ++ x :: xs)) :
    s.Ends rest := by
  cases h with
  | @mark kind text hm =>
    refine ⟨fun hjoin heq ↦ ?_, fun hkind ↦ hslash (by rw [hkind])⟩
    obtain ⟨m', hm', htext⟩ := mem_marks_append_equal _ hm hjoin
    exact hmax (.mark m'.1) '=' [] (singleton_prefix_of_mem_head? heq) (htext ▸ .mark hm')
  | integer hne hdigits =>
    refine ⟨fun c hc ↦ ?_, fun hpoint d hd ↦ ?_⟩
    · by_contra hdigit
      refine hmax .integer c [] (singleton_prefix_of_mem_head? hc) (.integer (by simp) ?_)
      exact List.forall_mem_append.mpr ⟨hdigits, by simpa using hdigit⟩
    · by_contra hdigit
      obtain ⟨tail, rfl⟩ := List.head?_eq_some_iff.mp hpoint
      refine hmax .fraction '.' [d] ?_ (.fraction hne (by simp) hdigits (by simpa using hdigit))
      exact List.cons_prefix_cons.mpr ⟨rfl, singleton_prefix_of_mem_head? hd⟩
  | @fraction whole part hwhole hpart hw hp =>
    intro c hc
    by_contra hdigit
    refine hmax .fraction c [] (singleton_prefix_of_mem_head? hc) ?_
    rw [List.append_assoc, List.cons_append]
    refine .fraction hwhole (by simp) hw ?_
    exact List.forall_mem_append.mpr ⟨hp, by simpa using hdigit⟩
  | word hc hcs =>
    intro x hx
    by_contra hletter
    refine hmax .word x [] (singleton_prefix_of_mem_head? hx) (.word hc ?_)
    exact List.forall_mem_append.mpr ⟨hcs, by simpa using hletter⟩
  | @lineComment body hbody =>
    intro c hc
    by_contra hne
    have hlonger : '\n' ∉ body ++ [c] := by simpa [hbody] using Ne.symm hne
    exact hmax .lineComment c [] (singleton_prefix_of_mem_head? hc) (.lineComment hlonger)
  | string | blank | blockComment => exact trivial

theorem Form.Spells.opening_of_slash {s : Form} {text rest : List Char} {c : Char}
    (h : s.Spells text) (hstart : ['/', c] <+: text ++ rest) : s.opening = .slash := by
  obtain ⟨x, xs, rfl⟩ := List.exists_cons_of_ne_nil h.ne_nil
  obtain ⟨rfl, -⟩ := List.cons_prefix_cons.mp hstart
  exact (Option.some.inj h.opening).symm

theorem Leads.ends {p : Piece} {rest : List Char} (h : p.Leads (p.text ++ rest)) :
    p.form.Ends rest := by
  refine p.spells.ends (fun hslash ↦ ?_) fun s' x xs hxs hs' ↦ ?_
  · have htext : p.text = ['/'] := (hslash ▸ p.spells).eq_of_slash
    have hcomment := h.comment
    rw [htext, hslash] at hcomment
    refine ⟨fun hhead ↦ ?_, fun hhead ↦ ?_⟩
    · exact absurd (hcomment (.inl (by simpa using singleton_prefix_of_mem_head? hhead)))
        (by decide)
    · exact absurd (hcomment (.inr (by simpa using singleton_prefix_of_mem_head? hhead)))
        (by decide)
  · have hlength := h.longest ⟨s', _, hs'⟩ (by simpa using hxs)
    simp at hlength

/-- No piece reaches beyond one that is followed by what ends it. -/
theorem length_le_of_ends {p q : Piece} {rest : List Char} (h : p.form.Ends rest)
    (hq : q.text <+: p.text ++ rest) : q.text.length ≤ p.text.length := by
  by_contra hlength
  obtain ⟨more, hmore⟩ := List.prefix_of_prefix_length_le (List.prefix_append p.text rest) hq
    (by omega)
  cases more with
  | nil => simp [← hmore] at hlength
  | cons x xs =>
    have hrest : x :: xs <+: rest := by
      rwa [← hmore, List.prefix_append_right_inj] at hq
    obtain ⟨tail, rfl⟩ := hrest
    exact p.spells.not_spells_append h (List.prefix_append xs tail) (hmore ▸ q.spells)

/-- A piece with two slashes or a slash and a star in front is a comment. -/
theorem isComment_of_ends {p : Piece} {rest : List Char} (h : p.form.Ends rest)
    (hstart : ['/', '/'] <+: p.text ++ rest ∨ ['/', '*'] <+: p.text ++ rest) :
    p.form.isComment = true := by
  have hopening : p.form.opening = .slash := by
    rcases hstart with hstart | hstart <;> exact p.spells.opening_of_slash hstart
  rcases Form.eq_of_opening_slash hopening with hform | hform | hform
  · rw [hform] at h
    have htext : p.text = ['/'] := (hform ▸ p.spells).eq_of_slash
    rw [htext] at hstart
    rcases hstart with hstart | hstart
    · obtain ⟨tail, rfl⟩ := (List.cons_prefix_cons.mp hstart).2
      exact absurd rfl (h.2 rfl).1
    · obtain ⟨tail, rfl⟩ := (List.cons_prefix_cons.mp hstart).2
      exact absurd rfl (h.2 rfl).2
  · rw [hform]
    rfl
  · rw [hform]
    rfl

/-- The longest piece in front of a text is the one that ends where its form ends. -/
theorem leads_iff_ends (p : Piece) (rest : List Char) :
    p.Leads (p.text ++ rest) ↔ p.form.Ends rest := by
  constructor
  · exact Leads.ends
  · intro h
    exact ⟨List.prefix_append _ _, fun q hq ↦ length_le_of_ends h hq, isComment_of_ends h⟩

end Piece

end LoxLang.Source
