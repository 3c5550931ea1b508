import LoxLang.Proofs.Arithmetic.Spelling
import LoxLang.Proofs.Lexing.Trimming
import LoxLang.Proofs.Parsing.Parts
import LoxLang.Proofs.Running.Joining
import LoxLang.Proofs.Running.Variants

/-!
Groupings do not matter.

A grouping is evaluated as what it groups, so programs that are the same but for groupings and lines
run alike (`run_like_of_ungrouped`). A parenthesis may stand wherever a piece of a text ends, except
behind a line comment (`tiles_enclose`), so every part of a program may be put in parentheses in its
text, and only groupings are added to its tree (`groupings_irrelevant`).
-/

set_option autoImplicit false
set_option relaxedAutoImplicit false

namespace LoxLang

open Source Grammar Evaluation Token.Kind

variable {L : Int → Int → Prop}

/-! ### Running without groupings -/

theorem Expr.evaluate_ungrouped (e : Expr) : e.ungrouped.evaluate = e.evaluate := by
  induction e with
  | assign name value ih => rw [ungrouped, evaluate, ih, evaluate]
  | binary left operator right ihl ihr => rw [ungrouped, evaluate, ihl, ihr, evaluate]
  | grouping inner ih => rw [ungrouped, ih, evaluate]
  | unary operator right ih => rw [ungrouped, evaluate, ih, evaluate]
  | literal | reference | foreign => rfl

theorem Stmt.execute_ungrouped (s : Stmt) : s.ungrouped.execute = s.execute := by
  cases s with
  | print value => rw [ungrouped, execute, value.evaluate_ungrouped, execute]
  | expression value => rw [ungrouped, execute, value.evaluate_ungrouped, execute]
  | var name initial =>
    cases initial with
    | none => rfl
    | some e => rw [ungrouped, Option.map_some, execute, e.evaluate_ungrouped, execute]
  | foreign => rfl

theorem executeAll_ungrouped (ss : List Stmt) :
    executeAll (ss.map Stmt.ungrouped) = executeAll ss := by
  induction ss with
  | nil => rfl
  | cons s ss ih => rw [List.map_cons, executeAll, s.execute_ungrouped, ih, executeAll]

/-- Texts that can be read run alike if their statements are executed alike. -/
theorem run_like_of_ok {source source' : String} {ss ss' : List Stmt}
    (h : programOf source = .ok ss) (h' : programOf source' = .ok ss')
    (hlike : Evaluation.Like L (executeAll ss) (executeAll ss')) :
    Evaluation.Like L (run source) (run source') := by
  obtain ⟨tokens, htokens, hparse⟩ := programOf_eq_ok h
  obtain ⟨tokens', htokens', hparse'⟩ := programOf_eq_ok h'
  simp only [run, readProgram, htokens, hparse, htokens', hparse', failOn, bind_assoc, pure_bind]
  exact (like_note _ _).bind fun _ _ _ ↦ (like_note _ _).bind fun _ _ _ ↦
    (like_note _ _).bind fun _ _ _ ↦ hlike

theorem run_like_of_ungrouped {source source' : String} {ss ss' : List Stmt}
    (h : programOf source = .ok ss) (h' : programOf source' = .ok ss')
    (hlike : List.Forall₂ (Stmt.Like L) (ss.map Stmt.ungrouped) (ss'.map Stmt.ungrouped)) :
    Evaluation.Like L (run source) (run source') := by
  have hexecute := executeAll_like hlike
  rw [executeAll_ungrouped, executeAll_ungrouped] at hexecute
  exact run_like_of_ok h h' hexecute

/-! ### The place of a subexpression -/

namespace Grammar

theorem exists_holds {n : Nonterminal} {ts : List Token} {e f : Expr} (h : Derives n ts e)
    (hf : f ∈ e.subexpressions) :
    ∃ us vs ws, ts = us ++ vs ++ ws ∧ Holds vs f n us ws e := by
  have hwhole : ∀ {n : Nonterminal} {ts : List Token} {e : Expr}, Derives n ts e → f ∈ [e] →
      ∃ us vs ws, ts = us ++ vs ++ ws ∧ Holds vs f n us ws e := by
    intro n ts e h hf
    obtain rfl := List.mem_singleton.mp hf
    exact ⟨[], ts, [], by simp, .whole h⟩
  induction h with
  | expression _ ih =>
    obtain ⟨us, vs, ws, rfl, hpart⟩ := ih hf
    exact ⟨us, vs, ws, rfl, .expression hpart⟩
  | equality _ ih =>
    obtain ⟨us, vs, ws, rfl, hpart⟩ := ih hf
    exact ⟨us, vs, ws, rfl, .equality hpart⟩
  | operand _ ih =>
    obtain ⟨us, vs, ws, rfl, hpart⟩ := ih hf
    exact ⟨us, vs, ws, rfl, .operand hpart⟩
  | primary _ ih =>
    obtain ⟨us, vs, ws, rfl, hpart⟩ := ih hf
    exact ⟨us, vs, ws, rfl, .primary hpart⟩
  | @assign name sign _ _ hname hsign he ih =>
    rcases List.mem_append.mp hf with hf | hf
    · obtain ⟨us, vs, ws, rfl, hpart⟩ := ih hf
      exact ⟨name :: sign :: us, vs, ws, rfl, .assign hname hsign hpart⟩
    · exact hwhole (.assign hname hsign he) hf
  | @binary _ ls rs _ _ operator hl hoperator hr ihl ihr =>
    rcases List.mem_append.mp hf with hf | hf
    · rcases List.mem_append.mp hf with hf | hf
      · obtain ⟨us, vs, ws, rfl, hpart⟩ := ihl hf
        exact ⟨us, vs, ws ++ operator :: rs, by simp, .left hpart hoperator hr⟩
      · obtain ⟨us, vs, ws, rfl, hpart⟩ := ihr hf
        exact ⟨ls ++ operator :: us, vs, ws, by simp, .right hl hoperator hpart⟩
    · exact hwhole (.binary hl hoperator hr) hf
  | @unary operator _ _ hoperator he ih =>
    rcases List.mem_append.mp hf with hf | hf
    · obtain ⟨us, vs, ws, rfl, hpart⟩ := ih hf
      exact ⟨operator :: us, vs, ws, rfl, .unary hoperator hpart⟩
    · exact hwhole (.unary hoperator he) hf
  | @grouping opening closing _ _ hopening he hclosing ih =>
    rcases List.mem_append.mp hf with hf | hf
    · obtain ⟨us, vs, ws, rfl, hpart⟩ := ih hf
      exact ⟨opening :: us, vs, ws ++ [closing], by simp, .grouping hopening hpart hclosing⟩
    · exact hwhole (.grouping hopening he hclosing) hf
  | true h => exact hwhole (.true h) hf
  | false h => exact hwhole (.false h) hf
  | nil h => exact hwhole (.nil h) hf
  | number h => exact hwhole (.number h) hf
  | string h => exact hwhole (.string h) hf
  | reference h => exact hwhole (.reference h) hf

theorem exists_declarationHolds {ts : List Token} {s : Stmt} {f : Expr} (h : Declaration ts s)
    (hf : f ∈ s.subexpressions) :
    ∃ us vs ws, ts = us ++ vs ++ ws ∧ DeclarationHolds vs f us ws s := by
  cases h with
  | var => cases hf
  | @varInitial keyword name sign mark _ _ hkeyword hname hsign h hmark =>
    obtain ⟨us, vs, ws, rfl, hpart⟩ := exists_holds h hf
    exact ⟨keyword :: name :: sign :: us, vs, ws ++ [mark], by simp,
      .var hkeyword hname hsign hpart hmark⟩
  | statement h =>
    cases h with
    | @print keyword mark _ _ hkeyword h hmark =>
      obtain ⟨us, vs, ws, rfl, hpart⟩ := exists_holds h hf
      exact ⟨keyword :: us, vs, ws ++ [mark], by simp, .print hkeyword hpart hmark⟩
    | @expression mark _ _ h hmark =>
      obtain ⟨us, vs, ws, rfl, hpart⟩ := exists_holds h hf
      exact ⟨us, vs, ws ++ [mark], by simp, .expression hpart hmark⟩

theorem exists_programHolds {ts : List Token} {ss : List Stmt} {f : Expr} (h : Program ts ss)
    (hf : f ∈ ss.flatMap Stmt.subexpressions) :
    ∃ us vs ws, ts = us ++ vs ++ ws ∧ ProgramHolds vs f us ws ss := by
  induction h with
  | nil => cases hf
  | @cons first rest s ss h hs ih =>
    rw [List.flatMap_cons] at hf
    rcases List.mem_append.mp hf with hf | hf
    · obtain ⟨us, vs, ws, rfl, hpart⟩ := exists_declarationHolds h hf
      exact ⟨us, vs, ws ++ rest, by simp, .first hpart hs⟩
    · obtain ⟨us, vs, ws, rfl, hpart⟩ := ih hf
      exact ⟨first ++ us, vs, ws, by simp, .later h hpart⟩

end Grammar

/-! ### Parentheses among pieces -/

namespace Source.Piece

theorem severs_opening : Severs '(' :=
  ⟨by decide, by decide, by decide⟩

theorem severs_closing : Severs ')' :=
  ⟨by decide, by decide, by decide⟩

/-- A row that does not end with a line comment. -/
def Closed (ps : List Piece) : Prop :=
  ∀ p ∈ ps.getLast?, p.form ≠ .lineComment

theorem Closed.cons {p : Piece} {ps : List Piece} (h : Closed ps)
    (hp : ps = [] → p.form ≠ .lineComment) : Closed (p :: ps) := by
  intro q hq
  cases ps with
  | nil =>
    obtain rfl : p = q := by simpa using hq
    exact hp rfl
  | cons p' ps => exact h q (by simpa [List.getLast?_cons] using hq)

/-- In front of a severing character a row is read as in front of any text. -/
theorem Tiles.sever {ps : List Piece} {rest : List Char} (h : Tiles ps rest) (hclosed : Closed ps)
    {c : Char} (hc : Severs c) (more : List Char) : Tiles ps (c :: more) := by
  induction ps with
  | nil => exact trivial
  | cons p ps ih =>
    obtain ⟨hleads, htiles⟩ := h
    have hlast : Closed ps := by
      intro q hq
      rw [Option.mem_def] at hq
      exact hclosed q (by simp [List.getLast?_cons, hq])
    have hends : p.form.Ends (spell ps) := ((leads_iff_ends p _).mp hleads).of_append
    have hform : spell ps = [] → p.form = .lineComment → c = '\n' := by
      intro hempty hcomment
      have hlength := length_le_length_spell ps
      rw [hempty] at hlength
      obtain rfl := List.length_eq_zero_iff.mp (Nat.le_zero.mp hlength)
      exact absurd hcomment (hclosed p rfl)
    exact ⟨(leads_iff_ends p _).mpr (hends.append_severing hc hform more), ih htiles hlast⟩

open Arithmetic (opening closing)

theorem tiles_enclose {ps qs rs : List Piece} (h : Tiles (ps ++ qs ++ rs) []) (hps : Closed ps)
    (hqs : Closed qs) : Tiles (ps ++ opening :: (qs ++ closing :: rs)) [] := by
  obtain ⟨hfront, hrs⟩ := tiles_append.mp h
  obtain ⟨hps', hqs'⟩ := tiles_append.mp hfront
  have hopening : ∀ text, opening.Leads (opening.text ++ text) := fun text ↦
    (leads_iff_ends opening text).mpr ⟨fun hmem ↦ absurd hmem (by decide), nofun⟩
  have hclosing : ∀ text, closing.Leads (closing.text ++ text) := fun text ↦
    (leads_iff_ends closing text).mpr ⟨fun hmem ↦ absurd hmem (by decide), nofun⟩
  refine tiles_append.mpr ⟨hps'.sever hps severs_opening _, hopening _, ?_⟩
  exact tiles_append.mpr ⟨hqs'.sever hqs severs_closing _, hclosing _, hrs⟩

theorem readable_enclose {ps qs rs : List Piece} (h : ∀ p ∈ ps ++ qs ++ rs, p.Readable) :
    ∀ p ∈ ps ++ opening :: (qs ++ closing :: rs), p.Readable := by
  have hopening : opening.Readable := nofun
  have hclosing : closing.Readable := nofun
  simp only [List.forall_mem_append, List.forall_mem_cons] at h ⊢
  exact ⟨h.1.1, hopening, h.1.2, hclosing, h.2⟩

/-- A row may be split where its tokens are, behind a token. -/
theorem exists_split {line : Nat} {ps : List Piece} {us vs : List Token}
    (h : tokensFrom line ps = us ++ vs) :
    ∃ qs rs, ps = qs ++ rs ∧ Closed qs ∧ tokensFrom line qs = us ∧
      tokensFrom (line + newlines (spell qs)) rs = vs := by
  induction ps generalizing line us with
  | nil =>
    obtain ⟨rfl, rfl⟩ := List.append_eq_nil_iff.mp h.symm
    exact ⟨[], [], rfl, nofun, rfl, rfl⟩
  | cons p ps ih =>
    cases us with
    | nil => exact ⟨[], p :: ps, rfl, nofun, rfl, by simpa [newlines] using h⟩
    | cons u us =>
      cases htoken : p.token? (line + newlines p.text) with
      | none =>
        rw [tokensFrom, htoken] at h
        obtain ⟨qs, rs, rfl, hclosed, hus, hvs⟩ := ih h
        refine ⟨p :: qs, rs, rfl, hclosed.cons fun hnil ↦ ?_, ?_, ?_⟩
        · rw [hnil] at hus
          cases hus
        · rw [tokensFrom, htoken, hus]
          rfl
        · rw [spell_cons, newlines_append, ← Nat.add_assoc, hvs]
      | some t =>
        rw [tokensFrom, htoken] at h
        obtain ⟨rfl, hrest⟩ : t = u ∧ tokensFrom (line + newlines p.text) ps = us ++ vs :=
          List.cons.inj h
        obtain ⟨qs, rs, rfl, hclosed, hus, hvs⟩ := ih hrest
        refine ⟨p :: qs, rs, rfl, hclosed.cons fun _ ↦ ?_, ?_, ?_⟩
        · refine isToken_ne_lineComment (Option.isSome_iff_exists.mpr ⟨t.kind, ?_⟩)
          obtain ⟨kind, hkind, rfl⟩ := Option.map_eq_some_iff.mp htoken
          exact hkind
        · rw [tokensFrom, htoken, hus]
          rfl
        · rw [spell_cons, newlines_append, ← Nat.add_assoc, hvs]

end Source.Piece

/-! ### Parts of texts -/

open Piece
open Arithmetic (opening closing)

/-- The text `a ++ b ++ c` is read as the program, and `b` as the subexpression `f` of it. There may
be gaps around the tokens of `f` in `b`, but neither `a` nor `b` ends with a line comment. -/
def HasPart (program : List Stmt) (f : Expr) (a b c : String) : Prop :=
  ∃ ps qs rs, spell ps = a.toList ∧ spell qs = b.toList ∧ spell rs = c.toList ∧
    Tiles (ps ++ qs ++ rs) [] ∧ (∀ p ∈ ps ++ qs ++ rs, p.Readable) ∧ Closed ps ∧ Closed qs ∧
    ProgramHolds (tokensFrom (1 + newlines (spell ps)) qs) f (tokensFrom 1 ps)
      (tokensFrom (1 + newlines (spell ps) + newlines (spell qs)) rs) program

section

variable {program : List Stmt} {f : Expr}

theorem programOf_of_tiles {source : String} {ps : List Piece} {front : List Token}
    (hsource : spell ps = source.toList) (htiles : Tiles ps []) (hread : ∀ p ∈ ps, p.Readable)
    (hfront : tokensFrom 1 ps = front) (h : Program front program) :
    programOf source = .ok program := by
  subst hfront
  unfold programOf
  rw [tokenize_of_tiles hsource htiles hread]
  exact parse_of_program h rfl

theorem HasPart.programOf_eq {a b c : String} (h : HasPart program f a b c) :
    programOf (a ++ b ++ c) = .ok program := by
  obtain ⟨ps, qs, rs, ha, hb, hc, htiles, hread, -, -, hpart⟩ := h
  refine programOf_of_tiles (by simp [ha, hb, hc]) htiles hread ?_ hpart.program
  rw [tokensFrom_append, tokensFrom_append, spell_append, newlines_append, Nat.add_assoc]

/-- A part of a text may be put in parentheses. -/
theorem HasPart.enclose {a b c : String} (h : HasPart program f a b c) :
    ∃ program', programOf (a ++ "(" ++ b ++ ")" ++ c) = .ok program' ∧
      program'.map Stmt.ungrouped = program.map Stmt.ungrouped := by
  obtain ⟨ps, qs, rs, ha, hb, hc, htiles, hread, hps, hqs, hpart⟩ := h
  let first : Token := ⟨leftParen, "(", .nil, ↑(1 + newlines (spell ps))⟩
  let last : Token := ⟨rightParen, ")", .nil, ↑(1 + newlines (spell ps) + newlines (spell qs))⟩
  have hfirst : first.kind = leftParen := rfl
  have hlast : last.kind = rightParen := rfl
  obtain ⟨program', hprogram, hsame⟩ := hpart.enclose hfirst hlast
  refine ⟨program', programOf_of_tiles ?_ (tiles_enclose htiles hps hqs) (readable_enclose hread) ?_
    hprogram, hsame⟩
  · simp [ha, hb, hc, opening, closing]
  · have hopening : newlines opening.text = 0 := rfl
    have hclosing : newlines closing.text = 0 := rfl
    simp only [tokensFrom_append, tokensFrom, hopening, hclosing, Nat.add_zero]
    simp [token?, kind?, literal, opening, closing, first, last]

theorem exists_hasPart {source : String} (h : programOf source = .ok program)
    (hf : f ∈ program.flatMap Stmt.subexpressions) :
    ∃ a b c, source = a ++ b ++ c ∧ HasPart program f a b c := by
  obtain ⟨tokens, htokens, hparse⟩ := programOf_eq_ok h
  rcases tokenize_cases source with ⟨ps, hsource, htiles, hread, hok⟩ |
    ⟨_, _, _, -, -, -, -, herror⟩
  · obtain rfl : tokens = tokensFrom 1 ps ++ [endToken source.toList] :=
      Except.ok.inj (htokens.symm.trans hok)
    have hprogram : Program (tokensFrom 1 ps) program :=
      program_of_parse (unended_tokensFrom 1 ps) rfl hparse
    obtain ⟨us, vs, ws, hsplit, hpart⟩ := exists_programHolds hprogram hf
    obtain ⟨front, rs, rfl, hfront, htokens, rfl⟩ := exists_split hsplit
    obtain ⟨ps, qs, rfl, hps, rfl, rfl⟩ := exists_split htokens
    refine ⟨.ofList (spell ps), .ofList (spell qs), .ofList (spell rs), ?_, ps, qs, rs, by simp,
      by simp, by simp, htiles, hread, hps, ?_, ?_⟩
    · exact String.toList_injective (by simp [← hsource])
    · intro q hq
      refine hfront q ?_
      rw [Option.mem_def] at hq
      simp [List.getLast?_append, hq]
    · rwa [spell_append, newlines_append, ← Nat.add_assoc] at hpart
  · cases htokens.symm.trans herror

end

/-- Texts that can be read run alike if their statements are the same but for groupings and lines.
Every subexpression of a program is the text of a part of it, and where such a part is put in
parentheses the statements remain the same but for groupings, so that the text still runs alike. -/
theorem groupings_irrelevant :
    (∀ source source' ss ss', programOf source = .ok ss → programOf source' = .ok ss' →
      List.Forall₂ (Stmt.Like AnyLine) (ss.map Stmt.ungrouped) (ss'.map Stmt.ungrouped) →
      Evaluation.Like AnyLine (run source) (run source')) ∧
    (∀ source program, programOf source = .ok program →
      ∀ f ∈ program.flatMap Stmt.subexpressions,
        ∃ a b c, source = a ++ b ++ c ∧ HasPart program f a b c) ∧
    ∀ program f a b c, HasPart program f a b c →
      programOf (a ++ b ++ c) = .ok program ∧
      ∃ program', programOf (a ++ "(" ++ b ++ ")" ++ c) = .ok program' ∧
        program'.map Stmt.ungrouped = program.map Stmt.ungrouped ∧
        Evaluation.Like AnyLine (run (a ++ b ++ c)) (run (a ++ "(" ++ b ++ ")" ++ c)) := by
  refine ⟨fun _ _ _ _ ↦ run_like_of_ungrouped, fun _ _ h _ hf ↦ exists_hasPart h hf, ?_⟩
  intro program f a b c h
  obtain ⟨program', hprogram, hsame⟩ := h.enclose
  refine ⟨h.programOf_eq, program', hprogram, hsame, ?_⟩
  refine run_like_of_ungrouped h.programOf_eq hprogram ?_
  rw [hsame]
  exact List.forall₂_same.mpr fun s _ ↦ s.like_refl fun _ ↦ trivial

/-- Groupings on other lines, and the product in a sum put in parentheses. -/
theorem groupings_irrelevant_of_product :
    Evaluation.Like AnyLine (run "print 1+2*x;") (run "print\n(1 + ((2*x)));") ∧
    ∃ a b c, "print 1+2*x;" = a ++ b ++ c ∧
      ∃ program', programOf (a ++ "(" ++ b ++ ")" ++ c) = .ok program' ∧
        Evaluation.Like AnyLine (run (a ++ b ++ c)) (run (a ++ "(" ++ b ++ ")" ++ c)) := by
  let product (line : Int) : Expr := .binary (.literal (.integer 2)) ⟨star, "*", .nil, line⟩
    (.reference ⟨identifier, "x", .nil, line⟩)
  let sum (line : Int) (e : Expr) : Expr :=
    .binary (.literal (.integer 1)) ⟨plus, "+", .nil, line⟩ e
  have hread : programOf "print 1+2*x;" = .ok [.print (sum 1 (product 1))] := by decide +kernel
  have hread' : programOf "print\n(1 + ((2*x)));" =
      .ok [.print (.grouping (sum 2 (.grouping (.grouping (product 2)))))] := by
    decide +kernel
  have hsame : List.Forall₂ (Stmt.Like AnyLine) [.print (sum 1 (product 1))]
      [.print (sum 2 (product 2))] := by
    have hx : Token.Like AnyLine ⟨identifier, "x", .nil, 1⟩ ⟨identifier, "x", .nil, 2⟩ :=
      ⟨rfl, rfl, rfl, trivial⟩
    have hstar : Token.Like AnyLine ⟨star, "*", .nil, 1⟩ ⟨star, "*", .nil, 2⟩ :=
      ⟨rfl, rfl, rfl, trivial⟩
    have hplus : Token.Like AnyLine ⟨plus, "+", .nil, 1⟩ ⟨plus, "+", .nil, 2⟩ :=
      ⟨rfl, rfl, rfl, trivial⟩
    exact .cons (.print (.binary (.literal _) hplus (.binary (.literal _) hstar (.reference hx)))) .nil
  obtain ⟨halike, hparts, henclose⟩ := groupings_irrelevant
  refine ⟨halike _ _ _ _ hread hread' hsame, ?_⟩
  have hproduct : product 1 ∈ [Stmt.print (sum 1 (product 1))].flatMap Stmt.subexpressions := by
    simp [Stmt.subexpressions, Stmt.expression?, Expr.subexpressions, sum, product]
  obtain ⟨a, b, c, hsource, hpart⟩ := hparts _ _ hread _ hproduct
  obtain ⟨-, program', hprogram, -, hrun⟩ := henclose _ _ a b c hpart
  exact ⟨a, b, c, hsource, program', hprogram, hrun⟩

end LoxLang
