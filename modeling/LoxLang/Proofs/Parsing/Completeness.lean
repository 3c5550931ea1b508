import LoxLang.Proofs.Parsing.Loose
import LoxLang.Proofs.Parsing.Soundness

/-!
The parser is complete: it takes every phrase whole, unless the token after it goes on with it.

A phrase of a tier may be the left operand of more operators, so completeness says of it that the
loop of the tier is still to run (`Completes`). With soundness, a list of tokens is parsed to a
program just when the grammar derives that program (`parse_eq_ok_iff_derives`).
-/

set_option autoImplicit false
set_option relaxedAutoImplicit false

namespace LoxLang

open Token.Kind

namespace Grammar

/-- The operators that a phrase of the tier could go on with. -/
def Tier.extensions : Tier → List Token.Kind
  | equality => operators equality ++ operators comparison ++ operators term ++ operators factor
  | comparison => operators comparison ++ operators term ++ operators factor
  | term => operators term ++ operators factor
  | factor => operators factor

/-- The kinds of token with which a phrase could go on where it can also end. -/
def Nonterminal.extensions : Nonterminal → List Token.Kind
  | .expression => equal :: Tier.equality.extensions
  | .assignment => equal :: Tier.equality.extensions
  | .tier t => t.extensions
  | .unary => []
  | .primary => []

theorem Tier.extensions_eq (t : Tier) : t.extensions = t.operators ++ t.operand.extensions := by
  cases t <;> rfl

theorem Tier.not_mem_extensions {t : Tier} {kind : Token.Kind} (h : kind ∈ t.operators) :
    kind ∉ t.operand.extensions := by
  revert kind
  cases t <;> decide

/-- The tokens begin with one that does not go on with a phrase of `x`. -/
def Halts (x : Nonterminal) (tokens : List Token) : Prop :=
  ∃ t ts, tokens = t :: ts ∧ t.kind ∉ x.extensions

theorem Halts.operand {t : Tier} {tokens : List Token} (h : Halts (.tier t) tokens) :
    Halts t.operand tokens := by
  obtain ⟨u, us, rfl, hu⟩ := h
  refine ⟨u, us, rfl, fun hmem ↦ hu ?_⟩
  rw [Nonterminal.extensions, Tier.extensions_eq]
  exact List.mem_append_right _ hmem

theorem Halts.equality {tokens : List Token} (h : Halts .assignment tokens) :
    Halts (.tier .equality) tokens := by
  obtain ⟨u, us, rfl, hu⟩ := h
  exact ⟨u, us, rfl, fun hmem ↦ hu (List.mem_cons_of_mem _ hmem)⟩

theorem Statement.exists_cons {us : List Token} {s : Stmt} (h : Statement us s) :
    ∃ t ts, us = t :: ts ∧ t.kind ≠ kwVar := by
  cases h with
  | print hkeyword => exact ⟨_, _, rfl, by simp [hkeyword]⟩
  | expression h =>
    obtain ⟨t, ts, rfl, ht⟩ := h.loose.exists_cons
    refine ⟨t, _, rfl, fun hvar ↦ ?_⟩
    rw [hvar] at ht
    revert ht
    decide

theorem Declaration.exists_cons {us : List Token} {s : Stmt} (h : Declaration us s) :
    ∃ t ts, us = t :: ts := by
  cases h with
  | var => exact ⟨_, _, rfl⟩
  | varInitial => exact ⟨_, _, rfl⟩
  | statement h =>
    obtain ⟨t, ts, hts, -⟩ := h.exists_cons
    exact ⟨t, ts, hts⟩

end Grammar

open Grammar

namespace Parser

variable {α β : Type}

/-- The parser takes `us` from in front of `rest` and returns `a`. -/
def Accepts (p : Parser α) (us : List Token) (a : α) (rest : List Token) : Prop :=
  ∀ before, p.run ⟨before, us ++ rest⟩ = .ok a ⟨us.reverse ++ before, rest⟩

namespace Accepts

theorem pure (a : α) (rest : List Token) : Accepts (Pure.pure a) [] a rest :=
  fun _ ↦ rfl

theorem bind {p : Parser α} {f : α → Parser β} {us vs rest : List Token} {a : α} {b : β}
    (h : Accepts p us a (vs ++ rest)) (hf : Accepts (f a) vs b rest) :
    Accepts (p >>= f) (us ++ vs) b rest := by
  intro before
  have hp := h before
  have hq := hf (us.reverse ++ before)
  simp only [EStateM.run_bind, List.append_assoc, hp, hq]
  simp

theorem accept? {kinds : List Token.Kind} {f : Option Token → Parser α} {t : Token}
    {us rest : List Token} {a : α} (ht : t.kind ∈ kinds) (hend : t.kind ≠ endOfText)
    (hf : Accepts (f (some t)) us a rest) :
    Accepts (Parser.accept? kinds >>= f) (t :: us) a rest := by
  intro before
  rw [List.cons_append, EStateM.run_bind, run_accept?_cons, if_pos ⟨hend, ht⟩]
  simpa using hf (t :: before)

theorem skip {kinds : List Token.Kind} {f : Option Token → Parser α} {t : Token}
    {us rest ts : List Token} {a : α} (hts : us ++ rest = t :: ts) (ht : t.kind ∉ kinds)
    (hf : Accepts (f none) us a rest) : Accepts (Parser.accept? kinds >>= f) us a rest := by
  intro before
  have h := hf before
  rw [hts] at h ⊢
  rw [EStateM.run_bind, run_accept?_cons, if_neg fun h ↦ ht h.2]
  exact h

theorem require {kind : Token.Kind} (hend : kind ≠ endOfText) {t : Token} (ht : t.kind = kind)
    (wording : String) (fault : Diagnostic.GrammarFault) (rest : List Token) :
    Accepts (Parser.require kind wording fault) [t] t rest := by
  intro before
  rw [List.singleton_append, run_require_cons, if_pos ⟨ht ▸ hend, ht⟩]
  rfl

end Accepts

theorem Accepts.bind_return {p : Parser α} {us rest : List Token} {a : α} (h : Accepts p us a rest)
    (f : α → β) : Accepts (do return f (← p)) us (f a) rest := by
  intro before
  rw [EStateM.run_bind, h before]
  rfl

theorem Accepts.discard {p : Parser α} {us rest : List Token} {a : α} (h : Accepts p us a rest) :
    Accepts (discard p) us () rest := by
  rw [discard_eq_bind]
  exact h.bind_return fun _ ↦ ()

/-! ### Phrases -/

/-- What completeness says of a phrase. One of a tier may be the left operand of more operators, so
after it the loop of the tier is still to run. -/
def Completes : Nonterminal → List Token → Expr → Prop
  | .tier t, us, e => ∀ before rest, Halts t.operand rest →
      (reader (.tier t)).run ⟨before, us ++ rest⟩ = (chain t e).run ⟨us.reverse ++ before, rest⟩
  | x, us, e => ∀ rest, Halts x rest → Accepts (reader x) us e rest

theorem accepts_chain_nil {t : Tier} {e : Expr} {rest : List Token} (h : Halts (.tier t) rest) :
    Accepts (chain t e) [] e rest := by
  obtain ⟨u, us, rfl, hu⟩ := h
  rw [chain_eq]
  refine .skip rfl (fun hmem ↦ hu ?_) (.pure e _)
  rw [Nonterminal.extensions, Tier.extensions_eq]
  exact List.mem_append_left _ hmem

theorem Completes.accepts {x : Nonterminal} {us rest : List Token} {e : Expr}
    (h : Completes x us e) (hrest : Halts x rest) : Accepts (reader x) us e rest := by
  cases x with
  | tier t =>
    intro before
    rw [h before rest hrest.operand]
    exact accepts_chain_nil hrest (us.reverse ++ before)
  | _ => exact h rest hrest

theorem Completes.operand (t : Tier) {us : List Token} {e : Expr} (h : Completes t.operand us e) :
    Completes (.tier t) us e := by
  intro before rest hrest
  rw [tier_eq, EStateM.run_bind, h.accepts hrest before]

theorem Completes.binary {t : Tier} {us vs : List Token} {l r : Expr} {operator : Token}
    (hl : Completes (.tier t) us l) (hoperator : operator.kind ∈ t.operators)
    (hr : Completes t.operand vs r) :
    Completes (.tier t) (us ++ operator :: vs) (.binary l operator r) := by
  intro before rest hrest
  have hhalts : Halts t.operand (operator :: vs ++ rest) :=
    ⟨operator, vs ++ rest, rfl, Tier.not_mem_extensions hoperator⟩
  have hend := Tier.ne_endOfText_of_mem_operators hoperator
  rw [List.append_assoc, hl before _ hhalts, List.cons_append, chain_eq, EStateM.run_bind,
    run_accept?_cons, if_pos ⟨hend, hoperator⟩]
  simp only [EStateM.run_bind, hr.accepts hrest (operator :: (us.reverse ++ before))]
  simp

theorem completes_unary {us : List Token} {e : Expr} {operator : Token}
    (hoperator : operator.kind = bang ∨ operator.kind = minus) (h : Completes .unary us e) :
    Completes .unary (operator :: us) (.unary operator e) := by
  intro rest hrest
  have hunary : Accepts unary us e rest := h rest hrest
  rw [reader, unary_eq]
  refine .accept? (by simpa using hoperator) ?_ (hunary.bind_return _)
  rcases hoperator with h | h <;> simp [h]

theorem Completes.primary {us : List Token} {e : Expr} (hus : Derives .primary us e)
    (h : Completes .primary us e) : Completes .unary us e := by
  intro rest hrest
  obtain ⟨t, ts, rfl, ht⟩ := hus.loose.exists_cons_of_primary
  rw [reader, unary_eq]
  refine .skip rfl (fun hmem ↦ ?_) (h rest hrest)
  revert ht hmem
  cases t.kind <;> simp [operandStarts]

/-- An operand that is a single token is read by looking at the kind of that token. -/
theorem completes_token {t : Token} {e : Expr} (h : Derives .primary [t] e) :
    Completes .primary [t] e := by
  intro rest _ before
  rw [reader, primary_eq]
  obtain ⟨kind, lexeme, literal, line⟩ := t
  generalize hts : [(⟨kind, lexeme, literal, line⟩ : Token)] = ts at h
  cases h with
  | true h | false h | nil h | number h | string h | reference h =>
    cases hts
    cases h
    rfl
  | grouping => simp at hts

theorem Completes.grouping {us : List Token} {e : Expr} {opening closing : Token}
    (hopening : opening.kind = leftParen) (h : Completes .expression us e)
    (hclosing : closing.kind = rightParen) :
    Completes .primary (opening :: us ++ [closing]) (.grouping e) := by
  intro rest _ before
  have hinner : Accepts expression us e (closing :: rest) :=
    h.accepts ⟨closing, rest, rfl, by rw [hclosing]; decide⟩
  have hgrouping : Accepts (groupingOver expression) (us ++ [closing]) (.grouping e) rest := by
    exact hinner.bind ((Accepts.require (by simp) hclosing _ _ rest).discard.bind_return _)
  rw [reader, primary_eq]
  have hrun := hgrouping (opening :: before)
  rw [List.cons_append, List.cons_append, run_primaryOver_of_leftParen hopening, hrun]
  simp

theorem completes_assignment {us : List Token} {e : Expr} (h : Completes (.tier .equality) us e) :
    Completes .assignment us e := by
  intro rest hrest
  have htarget : Accepts equality us e rest := h.accepts hrest.equality
  obtain ⟨t, ts, rfl, ht⟩ := hrest
  rw [reader, expression_eq, ← List.append_nil us]
  refine Accepts.bind htarget (.skip rfl (fun hmem ↦ ht ?_) (.pure e _))
  rw [Nonterminal.extensions, List.mem_singleton.mp hmem]
  exact List.mem_cons_self

theorem completes_reference {name : Token} (h : name.kind = identifier) :
    Completes (.tier .equality) [name] (.reference name) := by
  have hprimary : Completes .primary [name] (.reference name) := completes_token (.reference h)
  have hunary : Completes .unary [name] (.reference name) := hprimary.primary (.reference h)
  exact .operand .equality (.operand .comparison (.operand .term (.operand .factor hunary)))

theorem Completes.assign {name sign : Token} {us : List Token} {e : Expr}
    (hname : name.kind = identifier) (hsign : sign.kind = equal) (h : Completes .assignment us e) :
    Completes .assignment (name :: sign :: us) (.assign name e) := by
  intro rest hrest
  have htarget : Accepts equality [name] (.reference name) (sign :: us ++ rest) :=
    (completes_reference hname).accepts ⟨sign, us ++ rest, rfl, by rw [hsign]; decide⟩
  have hvalue : Accepts expression us e rest := h rest hrest
  rw [reader, expression_eq]
  exact htarget.bind (.accept? (by simp [hsign]) (by simp [hsign]) (hvalue.bind_return _))

theorem completes_of_derives {x : Nonterminal} {us : List Token} {e : Expr} (h : Derives x us e) :
    Completes x us e := by
  induction h with
  | expression _ ih => exact ih
  | assign hname hsign _ ih => exact ih.assign hname hsign
  | equality _ ih => exact completes_assignment ih
  | operand _ ih => exact .operand _ ih
  | binary _ hoperator _ ihl ihr => exact ihl.binary hoperator ihr
  | unary hoperator _ ih => exact completes_unary hoperator ih
  | primary h ih => exact ih.primary h
  | true h => exact completes_token (.true h)
  | false h => exact completes_token (.false h)
  | nil h => exact completes_token (.nil h)
  | number h => exact completes_token (.number h)
  | string h => exact completes_token (.string h)
  | reference h => exact completes_token (.reference h)
  | grouping hopening _ hclosing ih => exact ih.grouping hopening hclosing

/-! ### Statements -/

theorem accepts_closed {mark : Token} (hmark : mark.kind = semicolon) (s : Stmt) (wording : String)
    (rest : List Token) : Accepts (closed s wording) [mark] s rest :=
  (Accepts.require (by simp) hmark wording .expectedToken rest).discard.bind_return fun _ ↦ s

/-- An expression and the mark that ends its statement. -/
theorem accepts_closed_expression {us : List Token} {e : Expr} (h : Derives .expression us e)
    {mark : Token} (hmark : mark.kind = semicolon) (f : Expr → Stmt) (wording : String)
    (rest : List Token) :
    Accepts (do closed (f (← expression)) wording) (us ++ [mark]) (f e) rest := by
  have hexpression : Accepts expression us e ([mark] ++ rest) :=
    (completes_of_derives h).accepts ⟨mark, rest, rfl, by rw [hmark]; decide⟩
  exact hexpression.bind (accepts_closed hmark (f e) wording rest)

theorem accepts_statement {us : List Token} {s : Stmt} (h : Statement us s) (rest : List Token) :
    Accepts statement us s rest := by
  cases h with
  | print hkeyword h hmark =>
    refine .accept? (by simp [hkeyword]) (by simp [hkeyword]) ?_
    exact accepts_closed_expression h hmark .print _ rest
  | expression h hmark =>
    obtain ⟨t, ts, rfl, ht⟩ := h.loose.exists_cons
    refine .skip rfl (fun hmem ↦ ?_)
      (accepts_closed_expression h hmark .expression _ rest)
    rw [List.mem_singleton.mp hmem] at ht
    revert ht
    decide

theorem accepts_declaration {us : List Token} {s : Stmt} (h : Declaration us s)
    (rest : List Token) : Accepts declaration us s rest := by
  cases h with
  | @var _ name mark hkeyword hname hmark =>
    have hname' := Accepts.require (by simp) hname "Expect variable name." .expectedIdentifier
      ([mark] ++ rest)
    refine .accept? (by simp [hkeyword]) (by simp [hkeyword]) ?_
    rw [varDeclaration_eq]
    exact hname'.bind (.skip rfl (by simp [hmark]) (accepts_closed hmark _ _ rest))
  | @varInitial _ name sign mark ts _ hkeyword hname hsign h hmark =>
    have hname' := Accepts.require (by simp) hname "Expect variable name." .expectedIdentifier
      (sign :: ts ++ [mark] ++ rest)
    have hinitial := accepts_closed_expression h hmark (fun e ↦ .var name (some e))
      "Expect ';' after variable declaration." rest
    refine .accept? (by simp [hkeyword]) (by simp [hkeyword]) ?_
    rw [varDeclaration_eq]
    exact hname'.bind (.accept? (by simp [hsign]) (by simp [hsign]) hinitial)
  | statement h =>
    obtain ⟨t, ts, rfl, ht⟩ := h.exists_cons
    exact .skip rfl (by simpa using ht) (accepts_statement h rest)

/-- In front of other tokens, a program is read as its statements and then theirs. -/
theorem run_program_append {us : List Token} {ss : List Stmt} (h : Program us ss)
    (before rest : List Token) :
    program.run ⟨before, us ++ rest⟩ =
      EStateM.run (do return ss ++ (← program)) ⟨us.reverse ++ before, rest⟩ := by
  induction h generalizing before with
  | nil =>
    simp
  | @cons us vs s ss h _ ih =>
    obtain ⟨t, ts, rfl⟩ := h.exists_cons
    have hrun := accepts_declaration h (vs ++ rest) before
    have hend := (unended_cons.mp h.unended).1
    rw [List.append_assoc, List.cons_append, run_program_of_ne hend, ← List.cons_append,
      EStateM.run_bind, hrun]
    simp only [EStateM.run_bind, ih]
    rw [List.reverse_append, List.append_assoc]
    cases program.run ⟨vs.reverse ++ ((t :: ts).reverse ++ before), rest⟩ <;> rfl

end Parser

theorem parse_of_program {front : List Token} {program : List Stmt} (h : Program front program)
    {final : Token} (hfinal : final.kind = endOfText) :
    parse (front ++ [final]) = .ok program := by
  have hrun := Parser.run_program_append h [] [final]
  rw [EStateM.run_bind, Parser.run_program_of_eq hfinal] at hrun
  rw [parse, Feed.ofTokens, hrun]
  simp

/-- Tokens of which only the last one ends the text spell a program, or they are refused at one of
them. -/
theorem parse_cases {front : List Token} {final : Token} (hfront : Unended front)
    (hfinal : final.kind = endOfText) :
    (∃ program, parse (front ++ [final]) = .ok program ∧ Program front program) ∨
    ∃ t ∈ front ++ [final], ∃ fault wording expected, parse (front ++ [final]) =
      .error (.diagnostic (.atToken (.grammar fault wording expected) t)) := by
  have houtcome := Parser.run_program [] (front ++ [final])
  rw [parse, Feed.ofTokens]
  cases hrun : Parser.program.run ⟨[], front ++ [final]⟩ with
  | ok program after =>
    rw [hrun] at houtcome
    obtain ⟨us, t, ts, heq, ht, hus, -, hprogram⟩ := houtcome
    obtain rfl : front = us := hfront.eq_of_append_eq hus hfinal ht heq
    exact .inl ⟨program, rfl, hprogram⟩
  | error f after =>
    rw [hrun] at houtcome
    rcases houtcome with ⟨t, ht, fault, wording, expected, rfl⟩ | ⟨hunended, -⟩
    · exact .inr ⟨t, ht, fault, wording, expected, rfl⟩
    · have hlast := hunended final (List.mem_append_right front List.mem_cons_self)
      exact absurd hfinal hlast

theorem program_of_parse {front : List Token} {final : Token} {program : List Stmt}
    (hfront : Unended front) (hfinal : final.kind = endOfText)
    (h : parse (front ++ [final]) = .ok program) : Program front program := by
  rcases parse_cases hfront hfinal with ⟨other, hother, hprogram⟩ | ⟨t, -, _, _, _, herror⟩
  · obtain rfl : other = program := Except.ok.inj (hother.symm.trans h)
    exact hprogram
  · cases herror.symm.trans h

/-- The parser and the grammar agree on all tokens of which only the last one ends the text. So they
spell at most one program, and if they spell none they are refused at one of them. -/
theorem parse_eq_ok_iff_derives (front : List Token) (final : Token) (hfront : Unended front)
    (hfinal : final.kind = endOfText) :
    (∀ program, parse (front ++ [final]) = .ok program ↔ Program front program) ∧
    (∀ first second, Program front first → Program front second → first = second) ∧
    ((¬ ∃ program, Program front program) → ∃ t ∈ front ++ [final], ∃ fault wording expected,
      parse (front ++ [final]) =
        .error (.diagnostic (.atToken (.grammar fault wording expected) t))) := by
  refine ⟨fun program ↦ ⟨fun h ↦ ?_, fun h ↦ parse_of_program h hfinal⟩, ?_, fun hnone ↦ ?_⟩
  · rcases parse_cases hfront hfinal with ⟨other, hother, hprogram⟩ | ⟨t, -, _, _, _, herror⟩
    · rw [hother] at h
      cases h
      exact hprogram
    · rw [herror] at h
      cases h
  · intro first second hfirst hsecond
    have heq := (parse_of_program hfirst hfinal).symm.trans (parse_of_program hsecond hfinal)
    exact Except.ok.inj heq
  · rcases parse_cases hfront hfinal with ⟨program, -, hprogram⟩ | hrefused
    · exact absurd ⟨program, hprogram⟩ hnone
    · exact hrefused

/-- The tokens of `a = b - 2;` and the one program that they spell. -/
theorem derives_assignment_of_difference :
    Unended [⟨identifier, "a", .nil, 1⟩, ⟨equal, "=", .nil, 1⟩, ⟨identifier, "b", .nil, 1⟩,
      ⟨minus, "-", .nil, 1⟩, ⟨number, "2", .integer 2, 1⟩, ⟨semicolon, ";", .nil, 1⟩] ∧
    Program [⟨identifier, "a", .nil, 1⟩, ⟨equal, "=", .nil, 1⟩, ⟨identifier, "b", .nil, 1⟩,
      ⟨minus, "-", .nil, 1⟩, ⟨number, "2", .integer 2, 1⟩, ⟨semicolon, ";", .nil, 1⟩]
      [.expression (.assign ⟨identifier, "a", .nil, 1⟩ (.binary
        (.reference ⟨identifier, "b", .nil, 1⟩) ⟨minus, "-", .nil, 1⟩
        (.literal (.integer 2))))] := by
  refine ⟨by simp, ?_⟩
  exact ((parse_eq_ok_iff_derives _ ⟨endOfText, "", .nil, 1⟩ (by simp) rfl).1 _).mp rfl

end LoxLang
