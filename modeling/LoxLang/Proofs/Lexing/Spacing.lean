import LoxLang.Proofs.Lexing.Seam

/-!
What stands between the tokens of a text.

The pieces of a text that are no tokens only move its tokens to other lines
(`forall₂_like_of_gives`). A gap is a row of blanks and comments in which each line comment has its
line end. After a gap every text is read as it is alone (`Reads.after_gap`), and a blank ends every
token (`Form.Ends.append_blank`). So tokens may be set apart by any gaps that begin with a blank
(`Woven.reads`).
-/

set_option autoImplicit false
set_option relaxedAutoImplicit false

namespace LoxLang

/-- Lines that are not compared. -/
abbrev AnyLine (_ _ : Int) : Prop := True

namespace Source

open Token.Kind

namespace Piece

/-! ### The tokens among the pieces -/

def isToken (p : Piece) : Bool :=
  p.kind?.isSome

/-- The token is what the piece gives, on some line. -/
structure Gives (p : Piece) (t : Token) : Prop where
  kind : p.kind? = some t.kind
  lexeme : t.lexeme = String.ofList p.text
  literal : t.literal = p.literal

theorem forall₂_gives (line : Nat) (ps : List Piece) :
    List.Forall₂ Gives (ps.filter isToken) (tokensFrom line ps) := by
  induction ps generalizing line with
  | nil => exact .nil
  | cons p ps ih =>
    unfold tokensFrom
    cases hkind : p.kind? with
    | none =>
      rw [List.filter_cons_of_neg (by simp [isToken, hkind]), token?, hkind]
      exact ih _
    | some kind =>
      rw [List.filter_cons_of_pos (by simp [isToken, hkind]), token?, hkind]
      exact .cons ⟨hkind, rfl, rfl⟩ (ih _)

theorem Gives.like {p : Piece} {t t' : Token} (h : p.Gives t) (h' : p.Gives t') :
    t.Like AnyLine t' where
  kind := Option.some.inj (h'.kind.symm.trans h.kind)
  lexeme := h'.lexeme.trans h.lexeme.symm
  literal := h'.literal.trans h.literal.symm
  line := trivial

theorem forall₂_like_of_gives {ps : List Piece} {ts ts' : List Token}
    (h : List.Forall₂ Gives ps ts) (h' : List.Forall₂ Gives ps ts') :
    List.Forall₂ (Token.Like AnyLine) ts ts' := by
  induction h generalizing ts' with
  | nil =>
    rw [List.forall₂_nil_left_iff.mp h']
    exact .nil
  | cons hp _ ih =>
    obtain ⟨t', ts', hp', hps', rfl⟩ := List.forall₂_cons_left_iff.mp h'
    exact .cons (hp.like hp') (ih hps')

/-- The text is a row of longest pieces of which those that are tokens are `qs`. -/
def Reads (text : List Char) (qs : List Piece) : Prop :=
  ∃ ps, spell ps = text ∧ Tiles ps [] ∧ (∀ p ∈ ps, p.Readable) ∧ ps.filter isToken = qs

theorem Reads.readable {text : List Char} {qs : List Piece} (h : Reads text qs) :
    ∀ q ∈ qs, q.isToken = true ∧ q.Readable := by
  obtain ⟨ps, -, -, hread, rfl⟩ := h
  intro q hq
  obtain ⟨hmem, htoken⟩ := List.mem_filter.mp hq
  exact ⟨htoken, hread q hmem⟩

theorem Reads.tokenize {source : String} {qs : List Piece} (h : Reads source.toList qs) :
    ∃ front, tokenize source = .ok (front ++ [endToken source.toList]) ∧
      List.Forall₂ Gives qs front := by
  obtain ⟨ps, hsource, htiles, hread, rfl⟩ := h
  exact ⟨_, tokenize_of_tiles hsource htiles hread, forall₂_gives 1 ps⟩

theorem reads_of_tokenize {source : String} {tokens : List Token}
    (h : Source.tokenize source = .ok tokens) :
    ∃ qs front, Reads source.toList qs ∧ tokens = front ++ [endToken source.toList] ∧
      List.Forall₂ Gives qs front := by
  rcases tokenize_cases source with ⟨ps, hsource, htiles, hread, hok⟩ |
    ⟨_, _, _, -, -, -, -, herror⟩
  · rw [hok] at h
    exact ⟨_, _, ⟨ps, hsource, htiles, hread, rfl⟩, (Except.ok.inj h).symm, forall₂_gives 1 ps⟩
  · cases herror.symm.trans h

/-! ### Gaps -/

/-- Blanks and closed comments in a row. The line end after a line comment belongs to the row. -/
inductive Gap : List Char → Prop
  | nil : Gap []
  | blank {c : Char} {cs : List Char} (hc : c ∈ blanks) (h : Gap cs) : Gap (c :: cs)
  | blockComment {body cs : List Char} (hbody : ¬ ['*', '/'] <:+: body ++ ['*']) (h : Gap cs) :
    Gap ('/' :: '*' :: body ++ ['*', '/'] ++ cs)
  | lineComment {body cs : List Char} (hbody : '\n' ∉ body) (h : Gap cs) :
    Gap ('/' :: '/' :: body ++ '\n' :: cs)

/-- A gap that begins with a blank. -/
structure Separates (w : List Char) : Prop where
  gap : Gap w
  blank : ∃ c ∈ w.head?, c ∈ blanks

theorem separates_of_mem_blanks {c : Char} (h : c ∈ blanks) : Separates [c] :=
  ⟨.blank h .nil, c, rfl, h⟩

theorem isToken_ne_lineComment {p : Piece} (h : p.isToken = true) : p.form ≠ .lineComment := by
  intro hform
  simp [isToken, kind?, hform] at h

/-- A row without tokens that can stand in front of every text. -/
structure Aside (ps : List Piece) : Prop where
  tiles : ∀ rest, Tiles ps rest
  readable : ∀ p ∈ ps, p.Readable
  tokens : ps.filter isToken = []

theorem aside_nil : Aside [] :=
  ⟨fun _ ↦ trivial, by simp, rfl⟩

theorem Aside.cons {p : Piece} {ps : List Piece} (h : Aside ps)
    (hends : ∀ rest, p.form.Ends (spell ps ++ rest)) (hread : p.Readable)
    (hp : p.isToken = false) : Aside (p :: ps) where
  tiles rest := ⟨(leads_iff_ends p _).mpr (hends rest), h.tiles rest⟩
  readable := List.forall_mem_cons.mpr ⟨hread, h.readable⟩
  tokens := by rw [List.filter_cons_of_neg (by simp [hp]), h.tokens]

/-- After a gap every text is read as it is alone. -/
theorem Gap.exists_aside {w : List Char} (h : Gap w) : ∃ ps, spell ps = w ∧ Aside ps := by
  induction h with
  | nil => exact ⟨[], rfl, aside_nil⟩
  | @blank c cs hc _ ih =>
    obtain ⟨ps, rfl, hps⟩ := ih
    have hread : Readable ⟨.blank, [c], .blank hc⟩ := fun h ↦ by cases h
    exact ⟨⟨.blank, [c], .blank hc⟩ :: ps, rfl, hps.cons (fun _ ↦ trivial) hread rfl⟩
  | @blockComment body cs hbody _ ih =>
    obtain ⟨ps, rfl, hps⟩ := ih
    have hread : Readable ⟨.blockComment, _, .blockComment hbody⟩ := fun h ↦ by cases h
    exact ⟨⟨.blockComment, _, .blockComment hbody⟩ :: ps, rfl,
      hps.cons (fun _ ↦ trivial) hread rfl⟩
  | @lineComment body cs hbody _ ih =>
    obtain ⟨ps, rfl, hps⟩ := ih
    have hread : Readable ⟨.lineComment, _, .lineComment hbody⟩ := fun h ↦ by cases h
    have hnewline : Aside (newline :: ps) :=
      hps.cons (fun _ ↦ trivial) (fun h ↦ by cases h) rfl
    refine ⟨⟨.lineComment, _, .lineComment hbody⟩ :: newline :: ps, rfl,
      hnewline.cons (fun rest ↦ ?_) hread rfl⟩
    intro c hc
    exact (Option.some.inj hc).symm

/-! ### Tokens with gaps around them -/

/-- The text of tokens in a row, each followed by a gap that begins with a blank, the last one also
by nothing. -/
inductive Woven : List Piece → List Char → Prop
  | nil : Woven [] []
  | last (q : Piece) : Woven [q] q.text
  | cons (q : Piece) {w text : List Char} {qs : List Piece} (hw : Separates w)
    (h : Woven qs text) : Woven (q :: qs) (q.text ++ (w ++ text))

/-- A gap in front of a text does not change its tokens. -/
theorem Reads.after_gap {text w : List Char} {qs : List Piece} (h : Reads text qs) (hw : Gap w) :
    Reads (w ++ text) qs := by
  obtain ⟨ps, rfl, hps⟩ := hw.exists_aside
  obtain ⟨rest, rfl, htiles, hread, rfl⟩ := h
  refine ⟨ps ++ rest, spell_append ps rest, tiles_append.mpr ⟨hps.tiles _, htiles⟩, ?_, ?_⟩
  · exact List.forall_mem_append.mpr ⟨hps.readable, hread⟩
  · rw [List.filter_append, hps.tokens, List.nil_append]

/-- A token in front of a text that cannot go on with it. -/
theorem Reads.cons {text : List Char} {q : Piece} {qs : List Piece} (h : Reads text qs)
    (hends : q.form.Ends text) (htoken : q.isToken = true) (hread : q.Readable) :
    Reads (q.text ++ text) (q :: qs) := by
  obtain ⟨rest, rfl, htiles, hrest, rfl⟩ := h
  refine ⟨q :: rest, rfl, ⟨?_, htiles⟩, List.forall_mem_cons.mpr ⟨hread, hrest⟩, ?_⟩
  · rw [leads_iff_ends, List.append_nil]
    exact hends
  · rw [List.filter_cons_of_pos htoken]

/-- Tokens with gaps around them are read as these tokens. -/
theorem Woven.reads {qs : List Piece} {text : List Char} (h : Woven qs text)
    (hqs : ∀ q ∈ qs, q.isToken = true ∧ q.Readable) : Reads text qs := by
  have hnil : Reads [] [] := ⟨[], rfl, trivial, by simp, rfl⟩
  induction h with
  | nil => exact hnil
  | last q =>
    obtain ⟨htoken, hread⟩ := hqs q (by simp)
    have hlast := hnil.cons (Form.ends_nil q.form) htoken hread
    rwa [List.append_nil] at hlast
  | @cons q w text qs hw _ ih =>
    obtain ⟨⟨htoken, hread⟩, hqs⟩ := List.forall_mem_cons.mp hqs
    obtain ⟨c, hhead, hc⟩ := hw.blank
    obtain ⟨tail, rfl⟩ := List.head?_eq_some_iff.mp hhead
    refine ((ih hqs).after_gap hw.gap).cons ?_ htoken hread
    exact (Form.ends_nil _).append_blank hc (fun h ↦ absurd h (isToken_ne_lineComment htoken)) _

/-- The lexemes of tokens, each with a separator after it. -/
theorem woven_join {qs : List Piece} {ts : List Token} (h : List.Forall₂ Gives qs ts)
    {ws : List String} (hlength : ws.length = ts.length) (hws : ∀ w ∈ ws, Separates w.toList) :
    Woven qs (String.join (List.zipWith (fun t w ↦ t.lexeme ++ w) ts ws)).toList := by
  induction h generalizing ws with
  | nil => exact .nil
  | @cons q t qs ts hq _ ih =>
    cases ws with
    | nil => simp at hlength
    | cons w ws =>
      obtain ⟨hw, hws⟩ := List.forall_mem_cons.mp hws
      have hwoven := Woven.cons q hw (ih (Nat.succ.inj hlength) hws)
      simpa [hq.lexeme] using hwoven

/-- The lexemes of tokens with single spaces between them. -/
theorem woven_intercalate {qs : List Piece} {ts : List Token} (h : List.Forall₂ Gives qs ts) :
    Woven qs (" ".intercalate (ts.map Token.lexeme)).toList := by
  induction h with
  | nil => exact .nil
  | @cons q t qs ts hq hqs ih =>
    cases hqs with
    | nil => simpa [hq.lexeme] using Woven.last q
    | cons =>
      have hspace : Separates [' '] := separates_of_mem_blanks (by decide)
      have hwoven := Woven.cons q hspace ih
      rw [List.map_cons, List.map_cons, String.intercalate_cons_cons, hq.lexeme]
      simpa using hwoven

end Piece

end Source

end LoxLang
