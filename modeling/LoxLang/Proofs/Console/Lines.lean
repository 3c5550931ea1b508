import LoxLang.Proofs.Console.Counting
import LoxLang.Proofs.Lexing.Uniqueness

/-!
Lines joined with spaces.

A line whose block comments count for nothing (`Clear`) keeps its tokens without the white space
around it (`Clear.exists_trim`), and so do two such lines with a space between them
(`Clear.join`), unless the first has a comment that goes to its end: that comment takes the second
line with it (`Clear.extend`).
-/

set_option autoImplicit false
set_option relaxedAutoImplicit false

namespace LoxLang

open Source Piece Text

/-- A line as a row of pieces whose block comments count for nothing. -/
structure Clear (text : List Char) (ps : List Piece) : Prop where
  spells : spell ps = text
  tiles : Tiles ps []
  readable : ∀ p ∈ ps, p.Readable
  harmless : Harmless ps
  line : '\n' ∉ text

instance (p : Piece) : Decidable p.Readable :=
  inferInstanceAs (Decidable (_ → _))

instance (text : List Char) (ps : List Piece) : Decidable (Clear text ps) :=
  decidable_of_iff (spell ps = text ∧ Tiles ps [] ∧ (∀ p ∈ ps, p.Readable) ∧ Harmless ps ∧
      '\n' ∉ text)
    ⟨fun ⟨hspells, htiles, hreadable, hharmless, hline⟩ ↦
      ⟨hspells, htiles, hreadable, hharmless, hline⟩,
      fun h ↦ ⟨h.spells, h.tiles, h.readable, h.harmless, h.line⟩⟩

/-- There is a comment that goes to the end of the line. -/
def Commented (ps : List Piece) : Prop :=
  Form.lineComment ∈ ps.map Piece.form

instance (ps : List Piece) : Decidable (Commented ps) :=
  inferInstanceAs (Decidable (_ ∈ _))

theorem commented_append {ps qs : List Piece} :
    Commented (ps ++ qs) ↔ Commented ps ∨ Commented qs := by
  rw [Commented, List.map_append, List.mem_append, Commented, Commented]

theorem not_commented_of_blank {ps : List Piece} (h : ∀ p ∈ ps, p.form = .blank) :
    ¬ Commented ps := by
  intro hmem
  obtain ⟨p, hp, hform⟩ := List.mem_map.mp hmem
  cases (h p hp).symm.trans hform

theorem Source.Piece.Trims.commented_iff {ps qs : List Piece} (h : Trims ps qs) :
    Commented qs ↔ Commented ps := by
  obtain ⟨front, mid, back, rfl, hblank, hlike⟩ := h
  obtain ⟨hfront, hback⟩ := List.forall_mem_append.mp hblank
  have hforms : qs.map Piece.form = mid.map Piece.form := by
    induction hlike with
    | nil => rfl
    | cons hp _ ih => rw [List.map_cons, List.map_cons, hp.form, ih]
  simp only [commented_append, not_commented_of_blank hfront, not_commented_of_blank hback,
    false_or, or_false]
  rw [Commented, hforms, Commented]

namespace Clear

variable {text a b : List Char} {ps qs : List Piece}

theorem reads (h : Clear text ps) : Reads text (ps.filter isToken) :=
  ⟨ps, h.spells, h.tiles, h.readable, rfl⟩

theorem unique (h : Clear text ps) (h' : Clear text qs) : ps = qs :=
  h.tiles.unique h'.tiles (h.spells.trans h'.spells.symm)

theorem isUnfinished_iff {line : String} (h : Clear line.toList ps) :
    isUnfinished line = true ↔ LeavesOpen (kinds ps) :=
  LoxLang.isUnfinished_iff h.spells h.tiles h.line h.harmless

theorem mem_trim {c : Char} (h : c ∈ trim isBlank text) : c ∈ text := by
  have hfront : c ∈ text.dropWhile isBlank := (List.rdropWhile_prefix isBlank _).mem h
  exact (List.dropWhile_suffix isBlank).mem hfront

theorem exists_trim (h : Clear text ps) :
    ∃ qs, Clear (trim isBlank text) qs ∧ Trims ps qs := by
  obtain ⟨qs, hspells, htiles, htrims⟩ := Piece.exists_trim h.tiles
  rw [h.spells] at hspells
  refine ⟨qs, ⟨hspells, htiles, ?_, h.harmless.trims htrims, fun hline ↦ h.line (mem_trim hline)⟩,
    htrims⟩
  exact htrims.forall_mem (fun _ _ ↦ Alike.readable) h.readable

/-- Lines without a comment at their end may be joined with a space. -/
theorem join (ha : Clear a ps) (hps : ¬ Commented ps) (hb : Clear b qs) :
    ∃ rs, Clear (a ++ ' ' :: b) rs ∧ rs.filter isToken = ps.filter isToken ++ qs.filter isToken ∧
      (Commented rs ↔ Commented qs) := by
  have hspace : ' ' ∈ blanks := by decide
  have hcomment : ∀ p ∈ ps, p.form = .lineComment → ' ' = '\n' := by
    intro p hp hform
    exact absurd (List.mem_map.mpr ⟨p, hp, hform⟩) hps
  have hblank : ¬ Commented [ofBlank hspace] := not_commented_of_blank (by simp [ofBlank])
  refine ⟨ps ++ ofBlank hspace :: qs, ⟨?_, tiles_join ha.tiles hb.tiles hspace hcomment,
    readable_join ha.readable hb.readable hspace, ha.harmless.join hb.harmless hspace, ?_⟩, ?_, ?_⟩
  · rw [spell_append, spell_cons, ha.spells, hb.spells]
    rfl
  · simpa using ⟨ha.line, hb.line⟩
  · rw [List.filter_append, List.filter_cons_of_neg (by simp [isToken, ofBlank, kind?])]
  · rw [List.append_cons, commented_append, commented_append]
    simp [hps, hblank]

/-- A comment at the end of a line takes what is joined to the line. -/
theorem extend (ha : Clear a ps) (hps : Commented ps) (hb : '\n' ∉ b) :
    ∃ rs, Clear (a ++ b) rs ∧ rs.filter isToken = ps.filter isToken ∧ Commented rs := by
  obtain ⟨p, hp, hform⟩ := List.mem_map.mp hps
  obtain ⟨front, back, rfl⟩ := List.append_of_mem hp
  obtain ⟨hfront, hleads, -⟩ := tiles_append.mp ha.tiles
  rw [List.append_nil] at hfront hleads
  have hlast : '\n' ∉ spell back := by
    have hline := ha.line
    rw [← ha.spells, spell_append, spell_cons] at hline
    intro hmem
    exact hline (List.mem_append_right _ (List.mem_append_right _ hmem))
  obtain rfl := eq_nil_of_lineComment hform ((leads_iff_ends p _).mp hleads) hlast
  obtain ⟨body, htext, hbody⟩ := exists_body_of_lineComment hform
  have hlonger : '\n' ∉ body ++ b := by simpa using ⟨hbody, hb⟩
  let longer : Piece := ⟨.lineComment, '/' :: '/' :: (body ++ b), .lineComment hlonger⟩
  have halike : List.Forall₂ Alike (front ++ [p]) (front ++ [longer]) :=
    List.rel_append (List.forall₂_same.mpr fun _ _ ↦ .inl rfl) (.cons (.inr ⟨hform, rfl⟩) .nil)
  have hspell : spell (front ++ [longer]) = a ++ b := by
    rw [← ha.spells]
    simp [longer, htext]
  refine ⟨front ++ [longer], ⟨hspell, ?_, ?_, ha.harmless.alike halike, ?_⟩, ?_, ?_⟩
  · have hleads : longer.Leads (longer.text ++ []) :=
      (leads_iff_ends longer []).mpr (Form.ends_nil _)
    have hmore := hfront.append (by simp [htext]) b
    refine tiles_append.mpr ⟨?_, hleads, trivial⟩
    simpa [longer, htext] using hmore
  · exact forall_mem_of_alike halike (fun _ _ ↦ Alike.readable) ha.readable
  · simpa using ⟨ha.line, hb⟩
  · exact filter_isToken_of_alike halike
  · simp [Commented, longer]

end Clear

end LoxLang
