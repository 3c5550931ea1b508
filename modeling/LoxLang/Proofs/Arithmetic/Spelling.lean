import LoxLang.Proofs.Arithmetic.Exact
import LoxLang.Proofs.Lexing.Spacing
import Mathlib.Data.List.Chain

/-!
Writing trees of arithmetic with no more parentheses than they need.

Operators of equal strength are read from the left, and a sign binds more strongly than any of them.
So an operand is put in parentheses where it binds less strongly than its place asks for
(`Arithmetic.pieces`). None of the pieces that meet in such a text would be read as one
(`Arithmetic.phrase_pieces`), so that gaps may be left between them or not (`reads_row`).
-/

set_option autoImplicit false
set_option relaxedAutoImplicit false

namespace LoxLang

open Source Token.Kind

/-! ### Tokens with or without gaps -/

namespace Source.Piece

/-- The second piece may stand right behind the first one. -/
structure Meets (p q : Piece) : Prop where
  ends : p.form.Ends q.text
  point : q.text.head? ≠ some '.'

/-- Only a point asks for a second look at what follows a piece. -/
theorem Form.Ends.append_of_ne_point {form : Form} {text : List Char} (h : form.Ends text)
    (hne : text ≠ []) (hpoint : text.head? ≠ some '.') (more : List Char) :
    form.Ends (text ++ more) := by
  obtain ⟨c, cs, rfl⟩ := List.exists_cons_of_ne_nil hne
  cases form with
  | integer => exact ⟨h.1, fun heq ↦ absurd heq hpoint⟩
  | _ => exact h

theorem Meets.ends_append {p q : Piece} (h : p.Meets q) (more : List Char) :
    p.form.Ends (q.text ++ more) :=
  h.ends.append_of_ne_point q.spells.ne_nil h.point more

/-- Pieces in a row, each with what is left after it. -/
def row (ps : List Piece) (ws : List String) : List Char :=
  (List.zipWith (fun p w ↦ p.text ++ w.toList) ps ws).flatten

/-- Tokens in a row are read as these tokens, whether there are gaps between them or not. -/
theorem reads_row {ps : List Piece} (hchain : ps.IsChain Meets)
    (hps : ∀ p ∈ ps, p.isToken = true ∧ p.Readable) {ws : List String}
    (hlength : ws.length = ps.length) (hws : ∀ w ∈ ws, w = "" ∨ Separates w.toList) :
    Reads (row ps ws) ps := by
  induction ps generalizing ws with
  | nil => exact ⟨[], rfl, trivial, by simp, rfl⟩
  | cons p ps ih =>
    obtain ⟨w, ws, rfl⟩ := List.exists_cons_of_length_eq_add_one hlength
    obtain ⟨hmeets, hchain⟩ := List.isChain_cons.mp hchain
    obtain ⟨⟨htoken, hread⟩, hps⟩ := List.forall_mem_cons.mp hps
    obtain ⟨hw, hws⟩ := List.forall_mem_cons.mp hws
    have hrest := ih hchain hps (Nat.succ.inj hlength) hws
    have hrow : row (p :: ps) (w :: ws) = p.text ++ (w.toList ++ row ps ws) := by simp [row]
    rw [hrow]
    rcases hw with rfl | hw
    · -- The next piece stands right behind `p`.
      refine hrest.cons ?_ htoken hread
      cases ps with
      | nil => exact Form.ends_nil p.form
      | cons q qs =>
        obtain ⟨w', ws, rfl⟩ := List.exists_cons_of_length_eq_add_one (Nat.succ.inj hlength)
        have hrow : row (q :: qs) (w' :: ws) = q.text ++ (w'.toList ++ row qs ws) := by simp [row]
        rw [hrow]
        exact (hmeets q rfl).ends_append _
    · obtain ⟨c, hhead, hc⟩ := hw.blank
      obtain ⟨tail, htail⟩ := List.head?_eq_some_iff.mp hhead
      refine (hrest.after_gap hw.gap).cons ?_ htoken hread
      rw [htail]
      exact (Form.ends_nil _).append_blank hc (fun h ↦ absurd h (isToken_ne_lineComment htoken)) _

end Source.Piece

namespace Arithmetic

open Piece

/-! ### Pieces -/

def Operator.kind : Operator → Token.Kind
  | plus => .plus
  | minus => .minus
  | star => .star
  | slash => .slash

def Operator.symbol : Operator → Char
  | plus => '+'
  | minus => '-'
  | star => '*'
  | slash => '/'

theorem Operator.mem_marks (op : Operator) : (op.kind, [op.symbol]) ∈ marks := by
  cases op <;> decide

def Operator.piece (op : Operator) : Piece := ⟨.mark op.kind, [op.symbol], .mark op.mem_marks⟩

def Numeral.piece (n : Numeral) : Piece := ⟨.integer, n.digits, .integer n.nonempty n.decimal⟩

def opening : Piece := ⟨.mark leftParen, ['('], .mark (by decide)⟩

def closing : Piece := ⟨.mark rightParen, [')'], .mark (by decide)⟩

/-- The piece that ends a statement. -/
def ending : Piece := ⟨.mark semicolon, [';'], .mark (by decide)⟩

/-- The piece that begins a print statement. -/
def keyword : Piece :=
  ⟨.word, ['p', 'r', 'i', 'n', 't'], .word (by simp [isAlpha]) (by simp [isAlphaNumeric, isAlpha])⟩

def Operator.strength : Operator → ℕ
  | plus | minus => 0
  | star | slash => 1

/-- How strongly the parts of a tree are bound to each other. -/
def strength : Arithmetic → ℕ
  | operation op _ _ => op.strength
  | negation _ => 2
  | number _ | parentheses _ => 3

/-- The pieces of a part of the given strength, at a place that asks for a strength of `least`. -/
def enclosed (least strength : ℕ) (ps : List Piece) : List Piece :=
  if strength < least then opening :: ps ++ [closing] else ps

/-- The pieces of a tree. A right operand is to bind more strongly than its operator. -/
def pieces : Arithmetic → List Piece
  | number n => [n.piece]
  | negation a => Operator.minus.piece :: enclosed 2 a.strength a.pieces
  | operation op a b => enclosed op.strength a.strength a.pieces ++
      op.piece :: enclosed (op.strength + 1) b.strength b.pieces
  | parentheses a => opening :: a.pieces ++ [closing]

def lexemes (a : Arithmetic) : List String :=
  a.pieces.map fun p ↦ String.ofList p.text

/-- The lexemes of a tree, each with what is left after it. -/
def text (a : Arithmetic) (ws : List String) : String :=
  String.join (List.zipWith (· ++ ·) a.lexemes ws)

/-- The statement that prints a tree. -/
def printed (a : Arithmetic) (ws : List String) : String :=
  "print " ++ a.text ws ++ ";"

/-! ### The pieces of a tree meet -/

/-- What a phrase of arithmetic can begin with. -/
inductive Opens : Piece → Prop
  | number (n : Numeral) : Opens n.piece
  | sign : Opens Operator.minus.piece
  | opening : Opens opening

/-- What a phrase of arithmetic can end with. -/
inductive Closes : Piece → Prop
  | number (n : Numeral) : Closes n.piece
  | closing : Closes closing

theorem Opens.head? {q : Piece} (h : Opens q) :
    ∃ c ∈ q.text.head?, c ∉ ['/', '*', '.', '='] := by
  cases h with
  | number n =>
    obtain ⟨c, cs, hdigits⟩ := List.exists_cons_of_ne_nil n.nonempty
    have hc : isDigit c = true := n.decimal c (by simp [hdigits])
    refine ⟨c, by simp [Numeral.piece, hdigits], fun hmem ↦ ?_⟩
    have hother : ∀ d ∈ ['/', '*', '.', '='], isDigit d = false := by simp [isDigit]
    simp [hother c hmem] at hc
  | sign => exact ⟨'-', rfl, by decide⟩
  | opening => exact ⟨'(', rfl, by decide⟩

/-- Nothing but two more marks could go on with a mark. -/
theorem Opens.meets {p q : Piece} (hq : Opens q) {kind : Token.Kind} (hp : p.form = .mark kind) :
    p.Meets q := by
  obtain ⟨c, hhead, hc⟩ := hq.head?
  simp only [List.mem_cons, List.not_mem_nil, or_false, not_or] at hc
  rw [Option.mem_def] at hhead
  refine ⟨?_, by simp [hhead, hc]⟩
  rw [hp]
  exact ⟨fun _ ↦ by simp [hhead, hc], fun _ ↦ by simp [hhead, hc]⟩

theorem Closes.meets {p q : Piece} (hp : Closes p) {c : Char} (hq : q.text = [c])
    (hc : isDigit c = false) (hpoint : c ≠ '.') : p.Meets q := by
  refine ⟨?_, by simpa [hq] using hpoint⟩
  rw [hq]
  cases hp with
  | number n => exact ⟨by simpa using hc, fun heq ↦ absurd (Option.some.inj heq) hpoint⟩
  | closing => exact ⟨by simp, by simp⟩

theorem Operator.meets (op : Operator) {p : Piece} (hp : Closes p) : p.Meets op.piece :=
  hp.meets rfl (by cases op <;> decide) (by cases op <;> decide)

/-- Tokens that can be read. -/
abbrev Proper (p : Piece) : Prop :=
  p.isToken = true ∧ p.Readable

theorem proper_mark {p : Piece} {kind : Token.Kind} (hp : p.form = .mark kind) : Proper p :=
  ⟨by simp [isToken, kind?, hp], fun h ↦ by simp [hp] at h⟩

/-- A row of tokens that can meet, and that can be met from both sides. -/
structure Phrase (ps : List Piece) : Prop where
  proper : ∀ p ∈ ps, Proper p
  chain : ps.IsChain Meets
  opens : ∃ p ∈ ps.head?, Opens p
  closes : ∃ p ∈ ps.getLast?, Closes p

variable {ps qs : List Piece}

theorem phrase_number (n : Numeral) : Phrase [n.piece] where
  proper := List.forall_mem_singleton.mpr ⟨rfl, fun _ ↦ n.short⟩
  chain := .singleton _
  opens := ⟨_, rfl, .number n⟩
  closes := ⟨_, rfl, .number n⟩

/-- A mark in front of a phrase. -/
theorem Phrase.chain_cons (h : Phrase ps) {p : Piece} {kind : Token.Kind}
    (hp : p.form = .mark kind) : (p :: ps).IsChain Meets := by
  obtain ⟨q, hhead, hq⟩ := h.opens
  refine List.isChain_cons.mpr ⟨fun q' hq' ↦ ?_, h.chain⟩
  obtain rfl : q' = q := Option.mem_unique hq' hhead
  exact hq.meets hp

/-- A row that ends as a phrase does, in front of another row. -/
theorem chain_append (hps : ps.IsChain Meets) (hcloses : ∃ p ∈ ps.getLast?, Closes p) {q : Piece}
    (hqs : (q :: qs).IsChain Meets) (hq : ∀ p, Closes p → p.Meets q) :
    (ps ++ q :: qs).IsChain Meets := by
  obtain ⟨p, hlast, hp⟩ := hcloses
  refine List.isChain_append.mpr ⟨hps, hqs, fun p' hp' q' hq' ↦ ?_⟩
  obtain rfl : p' = p := Option.mem_unique hp' hlast
  obtain rfl : q = q' := Option.some.inj hq'
  exact hq _ hp

theorem Phrase.closes_cons (h : Phrase ps) (p : Piece) :
    ∃ q ∈ (p :: ps).getLast?, Closes q := by
  obtain ⟨q, hlast, hq⟩ := h.closes
  rw [Option.mem_def] at hlast
  exact ⟨q, by simp [List.getLast?_cons, hlast], hq⟩

theorem Phrase.sign (h : Phrase ps) : Phrase (Operator.minus.piece :: ps) where
  proper := List.forall_mem_cons.mpr ⟨proper_mark rfl, h.proper⟩
  chain := h.chain_cons rfl
  opens := ⟨_, rfl, .sign⟩
  closes := h.closes_cons _

theorem Phrase.parentheses (h : Phrase ps) : Phrase (opening :: ps ++ [closing]) where
  proper := List.forall_mem_append.mpr ⟨List.forall_mem_cons.mpr ⟨proper_mark rfl, h.proper⟩,
    List.forall_mem_singleton.mpr (proper_mark rfl)⟩
  chain := chain_append (h.chain_cons rfl) (h.closes_cons opening) (.singleton _)
    fun _ hp ↦ hp.meets rfl (by decide) (by decide)
  opens := ⟨_, rfl, .opening⟩
  closes := ⟨closing, List.getLast?_concat, .closing⟩

theorem Phrase.operation (hps : Phrase ps) (op : Operator) (hqs : Phrase qs) :
    Phrase (ps ++ op.piece :: qs) where
  proper := List.forall_mem_append.mpr ⟨hps.proper,
    List.forall_mem_cons.mpr ⟨proper_mark rfl, hqs.proper⟩⟩
  chain := chain_append hps.chain hps.closes (hqs.chain_cons rfl) fun _ hp ↦ op.meets hp
  opens := by
    obtain ⟨p, hhead, hp⟩ := hps.opens
    rw [Option.mem_def] at hhead
    exact ⟨p, by simp [hhead], hp⟩
  closes := by
    obtain ⟨q, hlast, hq⟩ := hqs.closes_cons op.piece
    rw [Option.mem_def] at hlast
    exact ⟨q, by simp [hlast], hq⟩

theorem Phrase.enclosed (h : Phrase ps) (least strength : ℕ) :
    Phrase (enclosed least strength ps) := by
  unfold Arithmetic.enclosed
  split
  · exact h.parentheses
  · exact h

theorem phrase_pieces (a : Arithmetic) : Phrase a.pieces := by
  induction a with
  | number n => exact phrase_number n
  | negation a ih => exact (ih.enclosed _ _).sign
  | operation op a b iha ihb => exact (iha.enclosed _ _).operation op (ihb.enclosed _ _)
  | parentheses a ih => exact ih.parentheses

/-! ### Reading the text of a tree -/

theorem toList_text (a : Arithmetic) (ws : List String) : (a.text ws).toList = row a.pieces ws := by
  unfold text lexemes row
  generalize a.pieces = ps
  induction ps generalizing ws with
  | nil => rfl
  | cons p ps ih =>
    cases ws with
    | nil => rfl
    | cons w ws => simp [ih]

/-- The pieces of a statement that prints a tree are read from its text. -/
theorem reads_printed (a : Arithmetic) {ws : List String} (hlength : ws.length = a.lexemes.length)
    (hws : ∀ w ∈ ws, w = "" ∨ Separates w.toList) :
    Reads (a.printed ws).toList (keyword :: (a.pieces ++ [ending])) := by
  have hlength : ws.length = a.pieces.length := by simpa [lexemes] using hlength
  have hchain : (a.pieces ++ [ending]).IsChain Meets :=
    chain_append a.phrase_pieces.chain a.phrase_pieces.closes (.singleton _)
      fun _ hp ↦ hp.meets rfl (by decide) (by decide)
  have hproper : ∀ p ∈ a.pieces ++ [ending], Proper p :=
    List.forall_mem_append.mpr ⟨a.phrase_pieces.proper,
      List.forall_mem_singleton.mpr (proper_mark rfl)⟩
  have hgaps : ∀ w ∈ ws ++ [""], w = "" ∨ Separates w.toList :=
    List.forall_mem_append.mpr ⟨hws, by simp⟩
  have hcount : (ws ++ [""]).length = (a.pieces ++ [ending]).length := by simp [hlength]
  have hrow := reads_row hchain hproper hcount hgaps
  have hspace : Separates [' '] := separates_of_mem_blanks (by decide)
  have hends : keyword.form.Ends ([' '] ++ row (a.pieces ++ [ending]) (ws ++ [""])) :=
    (Form.ends_nil _).append_blank (by decide) (fun h ↦ by cases h) _
  have hread := (hrow.after_gap hspace.gap).cons hends rfl (fun h ↦ by cases h)
  have hlast : row (a.pieces ++ [ending]) (ws ++ [""]) = row a.pieces ws ++ [';'] := by
    rw [row, List.zipWith_append hlength.symm]
    simp [row, ending]
  rw [hlast] at hread
  simpa [printed, toList_text, keyword] using hread

end Arithmetic

end LoxLang
