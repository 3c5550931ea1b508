import LoxLang.Proofs.Lexing.Tiling

/-!
A text is cut into pieces in one way only.

The text of a piece shows its form (`Form.Spells.unique`), and the longest piece in front of a text
is only one (`Leads.unique`). So rows of longest pieces with the same text are the same
(`Tiles.unique`).
-/

set_option autoImplicit false
set_option relaxedAutoImplicit false

namespace LoxLang.Source.Piece

open Token.Kind

theorem eq_of_mem_marks : ∀ m ∈ marks, ∀ m' ∈ marks, m'.2 = m.2 → m'.1 = m.1 := by
  decide

theorem Form.Spells.mem_marks {kind : Token.Kind} {text : List Char}
    (h : (Form.mark kind).Spells text) : (kind, text) ∈ marks := by
  cases h with
  | mark h => exact h

/-- The point of a fraction tells it from whole numbers. -/
theorem Form.Spells.point_mem_iff {form : Form} {text : List Char} (h : form.Spells text)
    (hform : form.opening = .digit) : '.' ∈ text ↔ form = .fraction := by
  rcases Form.eq_of_opening_digit hform with rfl | rfl
  · cases h with
    | integer hne hdigits =>
      have hpoint : isDigit '.' = false := by decide
      refine iff_of_false (fun hmem ↦ ?_) (by simp)
      exact absurd (hdigits '.' hmem) (by simp [hpoint])
  · cases h with
    | fraction => simp

/-- The second character of a piece that begins with a slash. -/
theorem Form.Spells.second_of_slash {form : Form} {text : List Char} (h : form.Spells text)
    (hform : form.opening = .slash) :
    text.tail.head? = if form = .lineComment then some '/'
      else if form = .blockComment then some '*' else none := by
  rcases Form.eq_of_opening_slash hform with rfl | rfl | rfl
  · rw [h.eq_of_slash]
    rfl
  · cases h with
    | lineComment => rfl
  · cases h with
    | blockComment => rfl

/-- The text of a piece shows its form. -/
theorem Form.Spells.unique {form form' : Form} {text : List Char} (h : form.Spells text)
    (h' : form'.Spells text) : form' = form := by
  have hopening : form'.opening = form.opening := by
    have hsame := h'.opening.symm.trans h.opening
    exact Option.some.inj hsame
  cases hform : form.opening with
  | operator =>
    obtain ⟨kind, rfl⟩ := Form.eq_mark_of_opening hform
    obtain ⟨kind', rfl⟩ := Form.eq_mark_of_opening (hopening.trans hform)
    have hkind : kind' = kind := eq_of_mem_marks _ h.mem_marks _ h'.mem_marks rfl
    rw [hkind]
  | slash =>
    have hsecond := (h'.second_of_slash (hopening.trans hform)).symm.trans (h.second_of_slash hform)
    rcases Form.eq_of_opening_slash hform with rfl | rfl | rfl <;>
      rcases Form.eq_of_opening_slash (hopening.trans hform) with rfl | rfl | rfl <;>
        simp_all
  | quote =>
    rw [Form.eq_string_of_opening hform, Form.eq_string_of_opening (hopening.trans hform)]
  | digit =>
    have hpoint := h.point_mem_iff hform
    have hpoint' := h'.point_mem_iff (hopening.trans hform)
    have hiff : form' = .fraction ↔ form = .fraction := hpoint'.symm.trans hpoint
    rcases Form.eq_of_opening_digit hform with rfl | rfl <;>
      rcases Form.eq_of_opening_digit (hopening.trans hform) with rfl | rfl <;>
        simp_all
  | letter => rw [Form.eq_word_of_opening hform, Form.eq_word_of_opening (hopening.trans hform)]
  | blank => rw [Form.eq_blank_of_opening hform, Form.eq_blank_of_opening (hopening.trans hform)]

/-- Pieces with the same text are the same. -/
theorem ext_text {p q : Piece} (h : p.text = q.text) : p = q := by
  obtain ⟨form, text, spells⟩ := p
  obtain ⟨form', text', spells'⟩ := q
  obtain rfl : text = text' := h
  obtain rfl := spells'.unique spells
  rfl

/-- Only one piece leads a text. -/
theorem Leads.unique {p q : Piece} {source : List Char} (hp : p.Leads source)
    (hq : q.Leads source) : p = q := by
  have hlength : p.text.length = q.text.length :=
    le_antisymm (hq.longest p hp.starts) (hp.longest q hq.starts)
  have hpq := List.prefix_of_prefix_length_le hp.starts hq.starts hlength.le
  exact ext_text (hpq.eq_of_length hlength)

/-- A text is a row of longest pieces in one way only. -/
theorem Tiles.unique {ps qs : List Piece} (hps : Tiles ps []) (hqs : Tiles qs [])
    (h : spell ps = spell qs) : ps = qs := by
  induction ps generalizing qs with
  | nil =>
    cases qs with
    | nil => rfl
    | cons q qs => simp [q.spells.ne_nil] at h
  | cons p ps ih =>
    cases qs with
    | nil => simp [p.spells.ne_nil] at h
    | cons q qs =>
      obtain ⟨hp, hps⟩ := hps
      obtain ⟨hq, hqs⟩ := hqs
      rw [List.append_nil, ← spell_cons] at hp hq
      obtain rfl : p = q := hp.unique (h ▸ hq)
      rw [ih hps hqs (List.append_cancel_left h)]

end LoxLang.Source.Piece
