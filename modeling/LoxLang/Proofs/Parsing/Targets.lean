import LoxLang.Proofs.Parsing.Completeness

/-!
Assignments to what is no name.

Phrases of the grammar in which any equality may be assigned to are phrases of the grammar, or the
parser refuses an assignment in them (`loose_cases`). So it is with declarations of that grammar,
and with whole texts of it (`declarations_cases`).
-/

set_option autoImplicit false
set_option relaxedAutoImplicit false

namespace LoxLang

open Token.Kind

open Grammar

namespace Parser

variable {α β : Type}

/-- The result is the refusal of an assignment to what is no name. -/
def Misassigns (r : EStateM.Result Failure Feed α) : Prop :=
  ∃ wording expected sign after, r = .error (.diagnostic
    (.atToken (.grammar .invalidAssignmentTarget wording expected) sign)) after

theorem Misassigns.bind {p : Parser α} {feed : Feed} (h : Misassigns (p.run feed))
    (f : α → Parser β) : Misassigns ((p >>= f).run feed) := by
  obtain ⟨wording, expected, sign, after, h⟩ := h
  exact ⟨wording, expected, sign, after, by rw [EStateM.run_bind, h]⟩

/-- The parser of `x` refuses an assignment in the tokens. As with a phrase that it takes, one of a
tier may be the left operand of more operators. -/
def Balks : Nonterminal → List Token → Prop
  | .tier t, us => ∀ before rest, Halts t.operand rest →
      Misassigns ((reader (.tier t)).run ⟨before, us ++ rest⟩)
  | x, us => ∀ before rest, Halts x rest → Misassigns ((reader x).run ⟨before, us ++ rest⟩)

theorem Balks.misassigns {x : Nonterminal} {us rest : List Token} (h : Balks x us)
    (hrest : Halts x rest) (before : List Token) :
    Misassigns ((reader x).run ⟨before, us ++ rest⟩) := by
  cases x with
  | tier t => exact h before rest hrest.operand
  | _ => exact h before rest hrest

theorem Balks.operand (t : Tier) {us : List Token} (h : Balks t.operand us) :
    Balks (.tier t) us := by
  intro before rest hrest
  rw [tier_eq]
  exact (h.misassigns hrest before).bind _

theorem Balks.left {t : Tier} {us : List Token} (h : Balks (.tier t) us) {operator : Token}
    (hoperator : operator.kind ∈ t.operators) (vs : List Token) :
    Balks (.tier t) (us ++ operator :: vs) := by
  intro before rest _
  rw [List.append_assoc]
  exact h before _ ⟨operator, vs ++ rest, rfl, Tier.not_mem_extensions hoperator⟩

theorem Balks.right {t : Tier} {us vs : List Token} {l : Expr} (hl : Derives (.tier t) us l)
    {operator : Token} (hoperator : operator.kind ∈ t.operators) (h : Balks t.operand vs) :
    Balks (.tier t) (us ++ operator :: vs) := by
  intro before rest hrest
  have hhalts : Halts t.operand (operator :: vs ++ rest) :=
    ⟨operator, vs ++ rest, rfl, Tier.not_mem_extensions hoperator⟩
  have hleft : Completes (.tier t) us l := completes_of_derives hl
  have hend := Tier.ne_endOfText_of_mem_operators hoperator
  rw [List.append_assoc, hleft before _ hhalts, List.cons_append, chain_eq, EStateM.run_bind,
    run_accept?_cons, if_pos ⟨hend, hoperator⟩]
  exact (h.misassigns hrest _).bind _

theorem Balks.unary {us : List Token} {operator : Token}
    (hoperator : operator.kind = bang ∨ operator.kind = minus) (h : Balks .unary us) :
    Balks .unary (operator :: us) := by
  intro before rest hrest
  have hend : operator.kind ≠ endOfText := by rcases hoperator with h | h <;> simp [h]
  rw [reader, unary_eq, List.cons_append, EStateM.run_bind, run_accept?_cons,
    if_pos ⟨hend, by simpa using hoperator⟩]
  exact (h (operator :: before) rest hrest).bind _

theorem Balks.primary {us : List Token} (hus : Loose .primary us) (h : Balks .primary us) :
    Balks .unary us := by
  intro before rest hrest
  have hprimary := h before rest hrest
  obtain ⟨t, ts, rfl, ht⟩ := hus.exists_cons_of_primary
  have hskip : ¬ (t.kind ≠ endOfText ∧ t.kind ∈ [bang, minus]) := by
    rintro ⟨-, hmem⟩
    revert ht hmem
    cases t.kind <;> simp [operandStarts]
  rw [reader, unary_eq, List.cons_append, EStateM.run_bind, run_accept?_cons,
    if_neg hskip]
  exact hprimary

theorem Balks.grouping {us : List Token} {opening closing : Token}
    (hopening : opening.kind = leftParen) (h : Balks .expression us)
    (hclosing : closing.kind = rightParen) : Balks .primary (opening :: us ++ [closing]) := by
  intro before rest _
  have hinner : Misassigns (expression.run ⟨opening :: before, us ++ closing :: rest⟩) :=
    h _ _ ⟨closing, rest, rfl, by rw [hclosing]; decide⟩
  rw [reader, primary_eq, List.cons_append, List.cons_append,
    run_primaryOver_of_leftParen hopening, List.append_assoc]
  exact hinner.bind _

theorem Balks.equality {us : List Token} (h : Balks (.tier .equality) us) :
    Balks .assignment us := by
  intro before rest hrest
  rw [reader, expression_eq]
  exact (h.misassigns hrest.equality before).bind _

theorem Balks.target {us : List Token} (h : Balks (.tier .equality) us) {sign : Token}
    (hsign : sign.kind = equal) (vs : List Token) : Balks .assignment (us ++ sign :: vs) := by
  intro before rest _
  have hhalts : Halts (.tier .equality) (sign :: vs ++ rest) :=
    ⟨sign, vs ++ rest, rfl, by rw [hsign]; decide⟩
  rw [reader, expression_eq, List.append_assoc]
  exact (h.misassigns hhalts before).bind _

/-- After its target and the sign, an assignment is read as its value. -/
theorem run_assignment {us vs : List Token} {target : Expr}
    (ht : Derives (.tier .equality) us target) {sign : Token} (hsign : sign.kind = equal)
    (before : List Token) :
    expression.run ⟨before, us ++ sign :: vs⟩ =
      EStateM.run (do assignTo target sign (← expression))
        ⟨sign :: (us.reverse ++ before), vs⟩ := by
  have hhalts : Halts (.tier .equality) (sign :: vs) := ⟨sign, vs, rfl, by rw [hsign]; decide⟩
  have htarget : Accepts equality us target (sign :: vs) :=
    (completes_of_derives ht).accepts hhalts
  have haccept : (accept? [equal]).run ⟨us.reverse ++ before, sign :: vs⟩ =
      .ok (some sign) ⟨sign :: (us.reverse ++ before), vs⟩ := by
    rw [run_accept?_cons, if_pos ⟨by simp [hsign], by simp [hsign]⟩]
  refine (congrArg (EStateM.run · _) expression_eq).trans ?_
  simp only [EStateM.run_bind, htarget before, haccept]

theorem Balks.value {us vs : List Token} {target : Expr}
    (ht : Derives (.tier .equality) us target) {sign : Token} (hsign : sign.kind = equal)
    (h : Balks .assignment vs) : Balks .assignment (us ++ sign :: vs) := by
  intro before rest hrest
  rw [reader, List.append_assoc, List.cons_append, run_assignment ht hsign]
  exact (h _ rest hrest).bind _

/-- An assignment of a value to a target is one of the grammar if the target is a name, and
otherwise the parser refuses it when it has read the value. -/
theorem assignment_cases {us vs : List Token} {target value : Expr}
    (ht : Derives (.tier .equality) us target) {sign : Token} (hsign : sign.kind = equal)
    (hvalue : Derives .assignment vs value) :
    (∃ e, Derives .assignment (us ++ sign :: vs) e) ∨ Balks .assignment (us ++ sign :: vs) := by
  by_cases hname : ∃ name, target = .reference name
  · obtain ⟨name, rfl⟩ := hname
    obtain ⟨rfl, hkind⟩ := ht.of_reference
    exact .inl ⟨_, .assign hkind hsign hvalue⟩
  · refine .inr fun before rest hrest ↦ ?_
    have hrun : Accepts expression vs value rest := completes_of_derives hvalue rest hrest
    rw [reader, List.append_assoc, List.cons_append, run_assignment ht hsign, EStateM.run_bind,
      hrun]
    cases target with
    | reference name => exact absurd ⟨name, rfl⟩ hname
    | _ => exact ⟨_, _, _, _, rfl⟩

/-- A phrase is one of the grammar, or the parser refuses an assignment in it. -/
theorem loose_cases {x : Nonterminal} {us : List Token} (h : Loose x us) :
    (∃ e, Derives x us e) ∨ Balks x us := by
  induction h with
  | expression _ ih => exact ih.imp (fun ⟨e, he⟩ ↦ ⟨e, .expression he⟩) id
  | assign _ hsign _ iht ih =>
    rcases iht with ⟨target, ht⟩ | ht
    · rcases ih with ⟨value, hvalue⟩ | hvalue
      · exact assignment_cases ht hsign hvalue
      · exact .inr (.value ht hsign hvalue)
    · exact .inr (ht.target hsign _)
  | equality _ ih => exact ih.imp (fun ⟨e, he⟩ ↦ ⟨e, .equality he⟩) .equality
  | operand _ ih => exact ih.imp (fun ⟨e, he⟩ ↦ ⟨e, .operand he⟩) (.operand _)
  | binary _ hoperator _ ihl ihr =>
    rcases ihl with ⟨l, hl⟩ | hl
    · exact ihr.imp (fun ⟨r, hr⟩ ↦ ⟨_, .binary hl hoperator hr⟩) (.right hl hoperator)
    · exact .inr (hl.left hoperator _)
  | unary hoperator _ ih =>
    exact ih.imp (fun ⟨e, he⟩ ↦ ⟨_, .unary hoperator he⟩) (.unary hoperator)
  | primary h ih => exact ih.imp (fun ⟨e, he⟩ ↦ ⟨e, .primary he⟩) (.primary h)
  | true h => exact .inl ⟨_, .true h⟩
  | false h => exact .inl ⟨_, .false h⟩
  | nil h => exact .inl ⟨_, .nil h⟩
  | number h => exact .inl ⟨_, .number h⟩
  | string h => exact .inl ⟨_, .string h⟩
  | reference h => exact .inl ⟨_, .reference h⟩
  | grouping hopening _ hclosing ih =>
    exact ih.imp (fun ⟨e, he⟩ ↦ ⟨_, .grouping hopening he hclosing⟩)
      fun h ↦ h.grouping hopening hclosing

/-! ### Statements -/

theorem run_declaration_of_kwVar {keyword : Token} (h : keyword.kind = kwVar)
    (before ts : List Token) :
    declaration.run ⟨before, keyword :: ts⟩ = varDeclaration.run ⟨keyword :: before, ts⟩ := by
  rw [declaration, EStateM.run_bind, run_accept?_cons, if_pos (by simp [h])]

theorem run_declaration_of_kwPrint {keyword : Token} (h : keyword.kind = kwPrint)
    (before ts : List Token) :
    declaration.run ⟨before, keyword :: ts⟩ = printStatement.run ⟨keyword :: before, ts⟩ := by
  rw [declaration, EStateM.run_bind, run_accept?_cons, if_neg (by simp [h])]
  simp only
  rw [statement, EStateM.run_bind, run_accept?_cons, if_pos (by simp [h])]

theorem run_declaration_of_not_mem {t : Token} (h : t.kind ∉ [kwVar, kwPrint])
    (before ts : List Token) :
    declaration.run ⟨before, t :: ts⟩ = expressionStatement.run ⟨before, t :: ts⟩ := by
  have hvar : t.kind ∉ [kwVar] := fun hmem ↦ h (List.mem_cons.mpr (.inl (by simpa using hmem)))
  have hprint : t.kind ∉ [kwPrint] := fun hmem ↦ h (List.mem_cons_of_mem _ hmem)
  rw [declaration, EStateM.run_bind, run_accept?_cons, if_neg (fun h ↦ hvar h.2)]
  simp only
  rw [statement, EStateM.run_bind, run_accept?_cons, if_neg (fun h ↦ hprint h.2)]

theorem Balks.statement {us : List Token} (h : Balks .expression us) {mark : Token}
    (hmark : mark.kind = semicolon) (f : Expr → Stmt) (wording : String)
    (before rest : List Token) :
    Misassigns (EStateM.run (do closed (f (← expression)) wording)
      ⟨before, us ++ mark :: rest⟩) := by
  have hhalts : Halts .expression (mark :: rest) := ⟨mark, rest, rfl, by rw [hmark]; decide⟩
  have hexpression : Misassigns (expression.run ⟨before, us ++ mark :: rest⟩) := h before _ hhalts
  exact hexpression.bind fun e ↦ closed (f e) wording

/-- A declaration is one of the grammar, or the parser refuses an assignment in it. -/
theorem unclosed_cases {us : List Token} (h : Unclosed us) {mark : Token}
    (hmark : mark.kind = semicolon) :
    (∃ s, Declaration (us ++ [mark]) s) ∨
      ∀ before rest, Misassigns (declaration.run ⟨before, us ++ mark :: rest⟩) := by
  cases h with
  | var hkeyword hname => exact .inl ⟨_, .var hkeyword hname hmark⟩
  | @varInitial keyword name sign us hkeyword hname hsign h =>
    rcases loose_cases h with ⟨e, he⟩ | h
    · exact .inl ⟨_, .varInitial hkeyword hname hsign he hmark⟩
    · refine .inr fun before rest ↦ ?_
      have hname' : (require identifier "Expect variable name." .expectedIdentifier).run
          ⟨keyword :: before, name :: sign :: us ++ mark :: rest⟩ =
            .ok name ⟨name :: keyword :: before, sign :: us ++ mark :: rest⟩ := by
        rw [List.cons_append, List.cons_append, run_require_cons, if_pos ⟨by simp [hname], hname⟩]
      rw [List.cons_append, run_declaration_of_kwVar hkeyword, varDeclaration_eq,
        EStateM.run_bind, hname']
      simp only
      rw [List.cons_append, EStateM.run_bind, run_accept?_cons,
        if_pos (by simp [hsign])]
      exact h.statement hmark (fun e ↦ .var name (some e)) _ _ rest
  | @print keyword us hkeyword h =>
    rcases loose_cases h with ⟨e, he⟩ | h
    · exact .inl ⟨_, .statement (.print hkeyword he hmark)⟩
    · refine .inr fun before rest ↦ ?_
      rw [List.cons_append, run_declaration_of_kwPrint hkeyword]
      exact h.statement hmark .print _ _ rest
  | expression h =>
    obtain ⟨t, ts, rfl, ht⟩ := h.exists_cons
    rcases loose_cases h with ⟨e, he⟩ | h
    · exact .inl ⟨_, .statement (.expression he hmark)⟩
    · refine .inr fun before rest ↦ ?_
      have hkeyword : t.kind ∉ [kwVar, kwPrint] := by
        revert ht
        cases t.kind <;> decide
      rw [List.cons_append, run_declaration_of_not_mem hkeyword]
      exact h.statement hmark .expression _ before rest

/-- Declarations are a program of the grammar, or the parser refuses an assignment in them. -/
theorem declarations_cases {us : List Token} (h : Declarations us) :
    (∃ ss, Program us ss) ∨
      ∀ before rest, Misassigns (program.run ⟨before, us ++ rest⟩) := by
  induction h with
  | nil => exact .inl ⟨[], .nil⟩
  | @cons us vs mark h hmark _ ih =>
    have hsplit : us ++ mark :: vs = us ++ [mark] ++ vs := by simp
    rcases unclosed_cases h hmark with ⟨s, hs⟩ | hmisassigns
    · rw [hsplit]
      refine ih.imp (fun ⟨ss, hss⟩ ↦ ⟨s :: ss, .cons hs hss⟩) fun hvs before rest ↦ ?_
      have hone : Program (us ++ [mark]) [s] := by simpa using Program.cons hs .nil
      rw [List.append_assoc, run_program_append hone]
      exact (hvs _ rest).bind _
    · refine .inr fun before rest ↦ ?_
      obtain ⟨t, ts, rfl, ht⟩ := h.exists_cons
      have hdeclaration := hmisassigns before (vs ++ rest)
      rw [List.append_assoc, List.cons_append, List.cons_append, run_program_of_ne ht]
      exact hdeclaration.bind _

end Parser

end LoxLang
