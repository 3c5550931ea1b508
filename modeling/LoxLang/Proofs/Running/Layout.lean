import LoxLang.Proofs.Lexing.Spacing
import LoxLang.Proofs.Running.Joining

/-!
Texts with the same tokens on other lines.

The parser, the prefix form and the execution look at the kinds, the lexemes and the literals of
tokens. So texts whose tokens differ in nothing but their lines are read, shown and run alike
(`alike_of_reads`), and in particular white space and comments between tokens do not matter
(`spacing_irrelevant`).
-/

set_option autoImplicit false
set_option relaxedAutoImplicit false

namespace LoxLang

open Source Evaluation

variable {L : Int → Int → Prop}

/-! ### The prefix form does not look at lines -/

theorem Expr.Like.prefixForm_eq {e e' : Expr} (h : e.Like L e') : e'.prefixForm = e.prefixForm := by
  induction h with
  | assign ht _ ih => simp only [Expr.prefixForm, ih, ht.lexeme]
  | binary _ ht _ ihl ihr => simp only [Expr.prefixForm, ihl, ihr, ht.lexeme]
  | grouping _ ih => simp only [Expr.prefixForm, ih]
  | unary ht _ ih => simp only [Expr.prefixForm, ih, ht.lexeme]
  | reference ht => simp only [Expr.prefixForm, ht.lexeme]
  | literal | foreign => rfl

theorem Stmt.Like.prefixForm_eq {s s' : Stmt} (h : s.Like L s') : s'.prefixForm = s.prefixForm := by
  cases h with
  | print he => simp only [Stmt.prefixForm, he.prefixForm_eq]
  | expression he => simp only [Stmt.prefixForm, he.prefixForm_eq]
  | var ht he =>
    cases he with
    | none => simp only [Stmt.prefixForm, ht.lexeme]
    | some he => simp only [Stmt.prefixForm, ht.lexeme, he.prefixForm_eq]
  | foreign => rfl

theorem programText_eq_of_like {ss ss' : List Stmt} (h : List.Forall₂ (Stmt.Like L) ss ss') :
    programText ss' = programText ss := by
  have hforms : ss'.mapM Stmt.prefixForm = ss.mapM Stmt.prefixForm := by
    induction h with
    | nil => rfl
    | cons hs _ ih => rw [List.mapM_cons, List.mapM_cons, hs.prefixForm_eq, ih]
  rw [programText, programText, hforms]

/-! ### Texts that differ in the lines of their tokens -/

/-- Two texts that can be cut into tokens, and that nothing tells apart but the lines of their
tokens and of their failures. -/
structure SameUpToLines (source source' : String) : Prop where
  tokens : ∃ ts ts', tokenize source = .ok ts ∧ tokenize source' = .ok ts' ∧
    List.Forall₂ (Token.Like AnyLine) ts ts'
  program : (∃ ss ss', programOf source = .ok ss ∧ programOf source' = .ok ss' ∧
      List.Forall₂ (Stmt.Like AnyLine) ss ss') ∨
    ∃ f f', programOf source = .error f ∧ programOf source' = .error f' ∧ f.Like AnyLine f'
  dump : Evaluation.Like AnyLine (dump source) (dump source')
  run : Evaluation.Like AnyLine (run source) (run source')

section

variable {source source' : String} {ts ts' : List Token}

theorem parse_like (h : List.Forall₂ (Token.Like L) ts ts') :
    (∃ ss ss', parse ts = .ok ss ∧ parse ts' = .ok ss' ∧ List.Forall₂ (Stmt.Like L) ss ss') ∨
    ∃ f f', parse ts = .error f ∧ parse ts' = .error f' ∧ f.Like L f' :=
  parse_append_like .nil h

theorem programOf_like (hts : tokenize source = .ok ts) (hts' : tokenize source' = .ok ts')
    (h : List.Forall₂ (Token.Like L) ts ts') :
    (∃ ss ss', programOf source = .ok ss ∧ programOf source' = .ok ss' ∧
      List.Forall₂ (Stmt.Like L) ss ss') ∨
    ∃ f f', programOf source = .error f ∧ programOf source' = .error f' ∧ f.Like L f' := by
  unfold programOf
  rw [hts, hts']
  exact parse_like h

/-- The notices of the two readings may differ. -/
theorem like_readProgram (hts : tokenize source = .ok ts) (hts' : tokenize source' = .ok ts')
    (h : List.Forall₂ (Token.Like L) ts ts') :
    Simulates Machine.Like (Failure.Like L) (List.Forall₂ (Stmt.Like L)) (readProgram source)
      (readProgram source') := by
  unfold readProgram
  rw [hts, hts']
  refine (like_note _ _).bind fun _ _ _ ↦ (simulates_pure h).bind fun us us' hus ↦ ?_
  have hprogram : Simulates Machine.Like (Failure.Like L) (List.Forall₂ (Stmt.Like L))
      (failOn (parse us)) (failOn (parse us')) := by
    rcases parse_like hus with ⟨ss, ss', hss, hss', hlike⟩ | ⟨f, f', hf, hf', hlike⟩
    · rw [hss, hss']
      exact simulates_pure hlike
    · rw [hf, hf']
      exact simulates_throw hlike
  exact hprogram.bind fun _ _ hss ↦ (like_note _ _).bind fun _ _ _ ↦ simulates_pure hss

/-- Texts with the same tokens but for lines are the same but for lines. -/
theorem sameUpToLines_of_tokens (hts : tokenize source = .ok ts)
    (hts' : tokenize source' = .ok ts') (h : List.Forall₂ (Token.Like AnyLine) ts ts') :
    SameUpToLines source source' where
  tokens := ⟨ts, ts', hts, hts', h⟩
  program := programOf_like hts hts' h
  dump := by
    refine (like_readProgram hts hts' h).bind fun ss ss' hss ↦ ?_
    rw [programText_eq_of_like hss]
    exact like_failOnMishap _
  run := by
    refine (like_readProgram hts hts' h).bind fun ss ss' hss ↦ ?_
    exact (like_note _ _).bind fun _ _ _ ↦ executeAll_like hss

end

/-! ### White space and comments between tokens -/

open Token.Kind
open Piece (Gap Separates Gives Reads separates_of_mem_blanks)

theorem sameUpToLines_of_reads {source source' : String} {qs : List Piece}
    (h : Reads source.toList qs) (h' : Reads source'.toList qs) : SameUpToLines source source' := by
  obtain ⟨front, hts, hfront⟩ := h.tokenize
  obtain ⟨front', hts', hfront'⟩ := h'.tokenize
  have hend : List.Forall₂ (Token.Like AnyLine) [endToken source.toList]
      [endToken source'.toList] :=
    .cons ⟨rfl, rfl, rfl, trivial⟩ .nil
  exact sameUpToLines_of_tokens hts hts'
    (List.rel_append (Piece.forall₂_like_of_gives hfront hfront') hend)

/-- The tokens of a text may be set apart by any white space and closed comments, as long as each
token has a blank after it; before the first token no blank is needed. With its lexemes joined by
single spaces the text is the same as well. -/
theorem spacing_irrelevant {source : String} {front : List Token} {final : Token}
    (h : tokenize source = .ok (front ++ [final])) :
    (∀ (w₀ : String) (ws : List String), Gap w₀.toList → (∀ w ∈ ws, Separates w.toList) →
      ws.length = front.length →
      SameUpToLines source
        (w₀ ++ String.join (List.zipWith (fun t w ↦ t.lexeme ++ w) front ws))) ∧
    SameUpToLines source (" ".intercalate (front.map Token.lexeme)) := by
  obtain ⟨qs, front', hreads, htokens, hgives⟩ := Piece.reads_of_tokenize h
  obtain ⟨rfl, -⟩ := List.append_inj' htokens rfl
  constructor
  · intro w₀ ws hw₀ hws hlength
    have hwoven := (Piece.woven_join hgives hlength hws).reads hreads.readable
    refine sameUpToLines_of_reads hreads ?_
    rw [String.toList_append]
    exact hwoven.after_gap hw₀
  · exact sameUpToLines_of_reads hreads ((Piece.woven_intercalate hgives).reads hreads.readable)

/-- A text without blanks, and the same tokens with comments and line ends between them. -/
theorem spacing_irrelevant_assignment :
    SameUpToLines "x=-1;" " /*;*/x\t= //=\n-\r1\n; " ∧ SameUpToLines "x=-1;" "x = - 1 ;" := by
  have h : tokenize "x=-1;" = .ok ([⟨identifier, "x", .nil, 1⟩, ⟨equal, "=", .nil, 1⟩,
      ⟨minus, "-", .nil, 1⟩, ⟨number, "1", .integer 1, 1⟩, ⟨semicolon, ";", .nil, 1⟩] ++
        [⟨endOfText, "", .nil, 1⟩]) := by
    decide +kernel
  obtain ⟨hgaps, hspaces⟩ := spacing_irrelevant h
  have hfirst : Gap " /*;*/".toList := by
    have hblock : Gap ('/' :: '*' :: [';'] ++ ['*', '/'] ++ []) := .blockComment (by decide) .nil
    exact .blank (by decide) hblock
  have hcomment : Separates " //=\n".toList := by
    have hline : Gap ('/' :: '/' :: ['='] ++ '\n' :: []) := .lineComment (by decide) .nil
    exact ⟨.blank (by decide) hline, ' ', rfl, by decide⟩
  have hws : ∀ w ∈ ["\t", " //=\n", "\r", "\n", " "], Separates w.toList := by
    simp only [List.forall_mem_cons, List.not_mem_nil, IsEmpty.forall_iff, implies_true, and_true]
    exact ⟨separates_of_mem_blanks (by decide), hcomment, separates_of_mem_blanks (by decide),
      separates_of_mem_blanks (by decide), separates_of_mem_blanks (by decide)⟩
  exact ⟨hgaps " /*;*/" _ hfirst hws rfl, hspaces⟩

end LoxLang
