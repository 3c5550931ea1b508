import LoxLang.Proofs.Lexing.Spacing
import LoxLang.Text.Blank
import Mathlib.Data.List.DropRight

/-!
A text without the white space at its ends.

Of a row of pieces the blanks at its ends go, and what a line comment at its end has of white space
(`exists_trim`). No other piece begins or ends with white space, so the tokens stay
(`Reads.trim`).
-/

set_option autoImplicit false
set_option relaxedAutoImplicit false

namespace LoxLang.Source

open Token.Kind Text

namespace Piece

/-! ### Pieces do not begin or end with white space -/

theorem isBlank_of_isAlphaNumeric {c : Char} (h : isAlphaNumeric c = true) : isBlank c = false := by
  have hunderscore : isBlank '_' = false := by decide
  have hlower : 'a'.val.toNat = 97 := rfl
  have hupper : 'A'.val.toNat = 65 := rfl
  have hzero : '0'.val.toNat = 48 := rfl
  have hz : 'z'.val.toNat = 122 := rfl
  have hZ : 'Z'.val.toNat = 90 := rfl
  have hnine : '9'.val.toNat = 57 := rfl
  by_cases hc : c = '_'
  · rw [hc, hunderscore]
  · simp only [isAlphaNumeric, isAlpha, isDigit, Bool.or_eq_true, Bool.and_eq_true,
      decide_eq_true_eq, Char.le_def, UInt32.le_iff_toNat_le, beq_iff_eq, hc, or_false] at h
    simp only [isBlank, Char.toNat, Bool.or_eq_false_iff, Bool.and_eq_false_iff,
      decide_eq_false_iff_not]
    omega

theorem isBlank_of_isDigit {c : Char} (h : isDigit c = true) : isBlank c = false :=
  isBlank_of_isAlphaNumeric (by simp [isAlphaNumeric, h])

theorem isBlank_of_mem_blanks : ∀ c ∈ blanks, isBlank c = true :=
  List.all_eq_true.mp (by decide)

theorem isBlank_of_mem_marks : ∀ m ∈ marks, ∀ c ∈ m.2, isBlank c = false := by
  simp [marks, isBlank]

/-- The first character of a piece that is no blank. -/
theorem Form.Spells.exists_head {form : Form} {text : List Char} (h : form.Spells text)
    (hform : form ≠ .blank) : ∃ c cs, text = c :: cs ∧ isBlank c = false := by
  cases h with
  | @mark kind text h =>
    obtain ⟨c, cs, rfl⟩ := List.exists_cons_of_ne_nil (Form.Spells.mark h).ne_nil
    exact ⟨c, cs, rfl, isBlank_of_mem_marks _ h c (by simp)⟩
  | string h => exact ⟨_, _, rfl, by decide⟩
  | integer hne h =>
    obtain ⟨c, cs, rfl⟩ := List.exists_cons_of_ne_nil hne
    exact ⟨c, cs, rfl, isBlank_of_isDigit (h c (by simp))⟩
  | fraction hwhole hpart hw hp =>
    obtain ⟨c, cs, rfl⟩ := List.exists_cons_of_ne_nil hwhole
    exact ⟨c, _, rfl, isBlank_of_isDigit (hw c (by simp))⟩
  | word hc hcs =>
    exact ⟨_, _, rfl, isBlank_of_isAlphaNumeric (by simp [isAlphaNumeric, hc])⟩
  | blank h => exact absurd rfl hform
  | lineComment h => exact ⟨_, _, rfl, by decide⟩
  | blockComment h => exact ⟨_, _, rfl, by decide⟩

/-- The last character of a piece that is no blank and no line comment. -/
theorem Form.Spells.exists_last {form : Form} {text : List Char} (h : form.Spells text)
    (hblank : form ≠ .blank) (hcomment : form ≠ .lineComment) :
    ∃ cs c, text = cs ++ [c] ∧ isBlank c = false := by
  obtain ⟨cs, c, rfl⟩ := (List.eq_nil_or_concat' text).resolve_left h.ne_nil
  refine ⟨cs, c, rfl, ?_⟩
  have hlast : c ∈ (cs ++ [c]).getLast? := by simp
  generalize cs ++ [c] = text at h hlast
  cases h with
  | mark h => exact isBlank_of_mem_marks _ h c (List.mem_of_getLast? hlast)
  | string h =>
    rw [List.getLast?_concat] at hlast
    obtain rfl := Option.some.inj hlast
    decide
  | integer hne h => exact isBlank_of_isDigit (h c (List.mem_of_getLast? hlast))
  | @fraction whole part hwhole hpart hw hp =>
    rw [List.append_cons, List.getLast?_append_of_ne_nil _ hpart] at hlast
    exact isBlank_of_isDigit (hp c (List.mem_of_getLast? hlast))
  | word hc hcs =>
    have hmem := List.mem_of_getLast? hlast
    refine isBlank_of_isAlphaNumeric ?_
    rcases List.mem_cons.mp hmem with rfl | hmem
    · simp [isAlphaNumeric, hc]
    · exact hcs c hmem
  | blank h => exact absurd rfl hblank
  | lineComment h => exact absurd rfl hcomment
  | blockComment h =>
    rw [List.getLast?_append_of_ne_nil _ (by simp)] at hlast
    obtain rfl := Option.some.inj hlast
    decide

/-! ### Rows in front of less text or more -/

theorem Form.Ends.of_append {form : Form} {a b : List Char}
    (h : form.Ends (a ++ b)) : form.Ends a := by
  cases a with
  | nil => exact form.ends_nil
  | cons c cs =>
    cases form with
    | integer =>
      refine ⟨h.1, fun hpoint d hd ↦ h.2 hpoint d ?_⟩
      obtain ⟨ds, rfl⟩ := List.head?_eq_some_iff.mp hd
      rfl
    | _ => exact h

theorem Tiles.of_append {ps : List Piece} {a b : List Char} (h : Tiles ps (a ++ b)) :
    Tiles ps a := by
  induction ps with
  | nil => exact trivial
  | cons p ps ih =>
    obtain ⟨hleads, htiles⟩ := h
    refine ⟨?_, ih htiles⟩
    rw [leads_iff_ends, ← List.append_assoc] at hleads
    rw [leads_iff_ends]
    exact hleads.of_append

/-- Two characters tell what ends a piece. -/
theorem Form.Ends.append {form : Form} {a : List Char} (h : form.Ends a) (ha : 2 ≤ a.length)
    (b : List Char) : form.Ends (a ++ b) := by
  obtain ⟨c, d, cs, rfl⟩ : ∃ c d cs, a = c :: d :: cs := by
    match a, ha with
    | c :: d :: cs, _ => exact ⟨c, d, cs, rfl⟩
  cases form <;> exact h

theorem Tiles.append {ps : List Piece} {a : List Char} (h : Tiles ps a) (ha : 2 ≤ a.length)
    (b : List Char) : Tiles ps (a ++ b) := by
  induction ps with
  | nil => exact trivial
  | cons p ps ih =>
    obtain ⟨hleads, htiles⟩ := h
    refine ⟨?_, ih htiles⟩
    rw [leads_iff_ends] at hleads
    rw [← List.append_assoc (spell ps), leads_iff_ends]
    exact hleads.append (le_trans ha (by simp)) b

/-! ### What goes with the white space -/

/-- What stands after the slashes of a line comment. -/
theorem exists_body_of_lineComment {p : Piece} (hp : p.form = .lineComment) :
    ∃ body, p.text = '/' :: '/' :: body ∧ '\n' ∉ body := by
  obtain ⟨form, text, spells⟩ := p
  obtain rfl : form = .lineComment := hp
  cases spells with
  | lineComment hbody => exact ⟨_, rfl, hbody⟩

/-- Pieces that differ in nothing but how far a line comment goes. -/
def Alike (p q : Piece) : Prop :=
  p = q ∨ p.form = .lineComment ∧ q.form = .lineComment

theorem Alike.form {p q : Piece} (h : p.Alike q) : q.form = p.form := by
  rcases h with rfl | ⟨hp, hq⟩
  · rfl
  · rw [hp, hq]

theorem Alike.readable {p q : Piece} (h : p.Alike q) (hp : p.Readable) : q.Readable := by
  rcases h with rfl | ⟨-, hq⟩
  · exact hp
  · intro hinteger
    cases hq.symm.trans hinteger

theorem Alike.eq_of_isToken {p q : Piece} (h : p.Alike q) (hp : p.isToken = true) : p = q := by
  rcases h with rfl | ⟨hp', -⟩
  · rfl
  · exact absurd hp' (isToken_ne_lineComment hp)

theorem Alike.isToken {p q : Piece} (h : p.Alike q) : q.isToken = p.isToken := by
  rcases h with rfl | ⟨hp, hq⟩
  · rfl
  · simp [Piece.isToken, kind?, hp, hq]

theorem filter_isToken_of_alike {ps qs : List Piece} (h : List.Forall₂ Alike ps qs) :
    qs.filter isToken = ps.filter isToken := by
  induction h with
  | nil => rfl
  | @cons p q ps qs hp _ ih =>
    by_cases htoken : p.isToken = true
    · rw [← hp.eq_of_isToken htoken, List.filter_cons_of_pos htoken, List.filter_cons_of_pos htoken,
        ih]
    · rw [List.filter_cons_of_neg htoken, List.filter_cons_of_neg (by rwa [hp.isToken]), ih]

/-- What is left of a row of pieces without the blanks at its ends. -/
def Trims (ps qs : List Piece) : Prop :=
  ∃ front mid back, ps = front ++ (mid ++ back) ∧ (∀ p ∈ front ++ back, p.form = .blank) ∧
    List.Forall₂ Alike mid qs

theorem forall_mem_of_alike {ps qs : List Piece} {P : Piece → Prop} (h : List.Forall₂ Alike ps qs)
    (hP : ∀ p q, p.Alike q → P p → P q) (hps : ∀ p ∈ ps, P p) : ∀ q ∈ qs, P q := by
  induction h with
  | nil => exact hps
  | cons hp _ ih =>
    obtain ⟨hhead, htail⟩ := List.forall_mem_cons.mp hps
    exact List.forall_mem_cons.mpr ⟨hP _ _ hp hhead, ih htail⟩

theorem Trims.forall_mem {ps qs : List Piece} {P : Piece → Prop} (h : Trims ps qs)
    (hP : ∀ p q, p.Alike q → P p → P q) (hps : ∀ p ∈ ps, P p) : ∀ q ∈ qs, P q := by
  obtain ⟨front, mid, back, rfl, -, hlike⟩ := h
  refine forall_mem_of_alike hlike hP fun p hp ↦ hps p ?_
  simp [hp]

theorem filter_isToken_of_blank {ps : List Piece} (h : ∀ p ∈ ps, p.form = .blank) :
    ps.filter isToken = [] := by
  refine List.filter_eq_nil_iff.mpr fun p hp ↦ ?_
  simp [isToken, kind?, h p hp]

theorem Trims.filter_isToken {ps qs : List Piece} (h : Trims ps qs) :
    qs.filter isToken = ps.filter isToken := by
  obtain ⟨front, mid, back, rfl, hblank, hlike⟩ := h
  obtain ⟨hfront, hback⟩ := List.forall_mem_append.mp hblank
  rw [filter_isToken_of_alike hlike, List.filter_append, List.filter_append,
    filter_isToken_of_blank hfront, filter_isToken_of_blank hback, List.nil_append, List.append_nil]

/-! ### Trimming a row -/

theorem rdropWhile_append_cons {p : Char → Bool} (xs : List Char) {c : Char} (ys : List Char)
    (hc : p c = false) :
    (xs ++ c :: ys).rdropWhile p = xs ++ c :: ys.rdropWhile p := by
  induction ys using List.reverseRecOn with
  | nil => rw [List.rdropWhile_nil, List.rdropWhile_concat_neg p xs c (by simp [hc])]
  | append_singleton ys y ih =>
    rw [← List.cons_append, ← List.append_assoc]
    by_cases hy : p y = true
    · rw [List.rdropWhile_concat_pos p _ y hy, List.rdropWhile_concat_pos p _ y hy, ih]
    · rw [List.rdropWhile_concat_neg p _ y hy, List.rdropWhile_concat_neg p _ y hy,
        List.append_assoc, List.cons_append]

theorem exists_dropWhile (ps : List Piece) : ∃ front mid, ps = front ++ mid ∧
    (∀ p ∈ front, p.form = .blank) ∧ spell mid = (spell ps).dropWhile isBlank := by
  induction ps with
  | nil => exact ⟨[], [], rfl, by simp, rfl⟩
  | cons p ps ih =>
    obtain ⟨form, text, spells⟩ := p
    by_cases hform : form = .blank
    · subst hform
      cases spells with
      | @blank c hc =>
        obtain ⟨front, mid, rfl, hfront, hmid⟩ := ih
        refine ⟨ofBlank hc :: front, mid, rfl, List.forall_mem_cons.mpr ⟨rfl, hfront⟩, ?_⟩
        rw [spell_cons, List.singleton_append,
          List.dropWhile_cons_of_pos (isBlank_of_mem_blanks c hc), hmid]
    · obtain ⟨c, cs, rfl, hc⟩ := spells.exists_head hform
      refine ⟨[], _, rfl, by simp, ?_⟩
      rw [spell_cons, List.cons_append, List.dropWhile_cons_of_neg (by simp [hc])]

/-- A line comment at the end of a row loses its white space. -/
theorem exists_short {ps : List Piece} {p : Piece} (h : Tiles (ps ++ [p]) [])
    (hp : p.form = .lineComment) : ∃ q, p.Alike q ∧ Tiles (ps ++ [q]) [] ∧
      spell (ps ++ [q]) = (spell (ps ++ [p])).rdropWhile isBlank := by
  obtain ⟨body, htext, hbody⟩ := exists_body_of_lineComment hp
  have hstart := List.rdropWhile_prefix isBlank body
  have hshort : '\n' ∉ body.rdropWhile isBlank := fun hmem ↦ hbody (hstart.mem hmem)
  obtain ⟨dropped, hdropped⟩ := hstart
  refine ⟨⟨.lineComment, _, .lineComment hshort⟩, .inr ⟨hp, rfl⟩, ?_, ?_⟩
  · have hfront := (tiles_append.mp h).1
    refine tiles_append.mpr ⟨Tiles.of_append (b := dropped) ?_, ?_, trivial⟩
    · simpa [htext, hdropped] using hfront
    · exact (leads_iff_ends _ _).mpr (Form.ends_nil _)
  · have hslash : isBlank '/' = false := by decide
    have hlast := rdropWhile_append_cons (spell ps ++ ['/']) body hslash
    simpa [htext] using hlast.symm

/-- At its end a row loses its blanks, and then a line comment its white space. -/
theorem exists_rdropWhile {ps : List Piece} (h : Tiles ps []) : ∃ mid back qs,
    ps = mid ++ back ∧ (∀ p ∈ back, p.form = .blank) ∧ List.Forall₂ Alike mid qs ∧
      Tiles qs [] ∧ spell qs = (spell ps).rdropWhile isBlank := by
  have hrefl (ps : List Piece) : List.Forall₂ Alike ps ps :=
    List.forall₂_same.mpr fun _ _ ↦ .inl rfl
  induction ps using List.reverseRecOn with
  | nil => exact ⟨[], [], [], rfl, by simp, .nil, trivial, rfl⟩
  | append_singleton ps p ih =>
    obtain ⟨hps, hp, -⟩ := tiles_append.mp h
    simp only [spell_cons, spell_nil, List.append_nil] at hps hp
    obtain ⟨form, text, spells⟩ := p
    by_cases hblank : form = .blank
    · subst hblank
      cases spells with
      | @blank c hc =>
        obtain ⟨mid, back, qs, rfl, hback, hlike, htiles, hqs⟩ := ih (hps.of_append (a := []))
        refine ⟨mid, back ++ [ofBlank hc], qs, List.append_assoc .., ?_, hlike, htiles, ?_⟩
        · exact List.forall_mem_append.mpr ⟨hback, by simp [ofBlank]⟩
        · rw [hqs, spell_append _ [_], spell_cons, spell_nil, List.append_nil,
            List.rdropWhile_concat_pos _ _ _ (isBlank_of_mem_blanks c hc)]
    · by_cases hcomment : form = .lineComment
      · obtain ⟨q, hq, htiles, hspell⟩ := exists_short h hcomment
        exact ⟨_, [], ps ++ [q], (List.append_nil _).symm, by simp,
          List.rel_append (hrefl ps) (.cons hq .nil), htiles, hspell⟩
      · obtain ⟨cs, c, rfl, hc⟩ := spells.exists_last hblank hcomment
        refine ⟨_, [], _, (List.append_nil _).symm, by simp, hrefl _, h, ?_⟩
        rw [spell_append, spell_cons, spell_nil, List.append_nil, ← List.append_assoc,
          List.rdropWhile_concat_neg _ _ _ (by simp [hc])]

/-- What `Text.strip` leaves of a row. -/
theorem exists_trim {ps : List Piece} (h : Tiles ps []) :
    ∃ qs, spell qs = trim isBlank (spell ps) ∧ Tiles qs [] ∧ Trims ps qs := by
  obtain ⟨front, rest, rfl, hfront, hrest⟩ := exists_dropWhile ps
  obtain ⟨mid, back, qs, rfl, hback, hlike, htiles, hqs⟩ :=
    exists_rdropWhile (tiles_append.mp h).2
  refine ⟨qs, ?_, htiles, front, mid, back, rfl, List.forall_mem_append.mpr ⟨hfront, hback⟩, hlike⟩
  rw [hqs, hrest]
  rfl

/-- A text without the white space at its ends has the same tokens. -/
theorem Reads.trim {text : List Char} {qs : List Piece} (h : Reads text qs) :
    Reads (Text.trim isBlank text) qs := by
  obtain ⟨ps, rfl, htiles, hread, rfl⟩ := h
  obtain ⟨rest, hrest, htiles, htrims⟩ := exists_trim htiles
  exact ⟨rest, hrest, htiles, htrims.forall_mem (fun _ _ ↦ Alike.readable) hread,
    htrims.filter_isToken⟩

end Piece

end LoxLang.Source
