import LoxLang.Proofs.Parsing.Equations

/-!
The parser looks one token ahead.

What a parser does with a list of tokens depends on those that it takes and on the next one, and on
none after it (`LooksAhead`). That passes through `>>=`, and bounds do not matter, since any two
that cover the tokens give one result (`LooksAhead.bounded`).
-/

set_option autoImplicit false
set_option relaxedAutoImplicit false

namespace LoxLang.Parser

open Token.Kind

variable {α β : Type}

/-- The parser takes tokens from the front of `rest` up to `after`, and has the result `r` wherever
those tokens and the next one are in front. -/
def Settles (p : Parser α) (before rest : List Token) (after : Feed)
    (r : Feed → EStateM.Result Failure Feed α) : Prop :=
  ∃ us, rest = us ++ after.rest ∧ after.before = us.reverse ++ before ∧
    ∀ t ts ts', after.rest = t :: ts →
      p.run ⟨before, us ++ t :: ts'⟩ = r ⟨after.before, t :: ts'⟩

def LooksAhead (p : Parser α) : Prop :=
  ∀ before rest,
    match p.run ⟨before, rest⟩ with
    | .ok a after => Settles p before rest after (.ok a)
    | .error f after => Settles p before rest after (.error f)

/-- A parser that takes the next token and goes on as one that looks ahead. -/
theorem Settles.cons {p q : Parser α} {t : Token} {before ts : List Token} {after : Feed}
    {r : Feed → EStateM.Result Failure Feed α}
    (hrun : ∀ ts, p.run ⟨before, t :: ts⟩ = q.run ⟨t :: before, ts⟩)
    (h : Settles q (t :: before) ts after r) : Settles p before (t :: ts) after r := by
  obtain ⟨us, rfl, hbefore, hr⟩ := h
  refine ⟨t :: us, rfl, by simp [hbefore], fun u vs vs' hrest ↦ ?_⟩
  rw [List.cons_append, hrun]
  exact hr u vs vs' hrest

/-- A parser that takes no token before it goes on as one that looks ahead. -/
theorem Settles.of_run_eq {p q : Parser α} {t : Token} {before ts : List Token} {after : Feed}
    {r : Feed → EStateM.Result Failure Feed α}
    (hrun : ∀ ts, p.run ⟨before, t :: ts⟩ = q.run ⟨before, t :: ts⟩)
    (h : Settles q before (t :: ts) after r) : Settles p before (t :: ts) after r := by
  obtain ⟨us, heq, hbefore, hr⟩ := h
  refine ⟨us, heq, hbefore, fun u vs vs' hrest ↦ ?_⟩
  rw [← hr u vs vs' hrest]
  cases us with
  | nil =>
    rw [hrest] at heq
    obtain ⟨rfl, -⟩ := List.cons.inj heq
    exact hrun vs'
  | cons u' us =>
    obtain ⟨rfl, -⟩ := List.cons.inj heq
    exact hrun _

theorem Settles.bind_error {p : Parser α} {g : α → Parser β} {before rest : List Token}
    {after : Feed} {f : Failure} (h : Settles p before rest after (.error f)) :
    Settles (p >>= g) before rest after (.error f) := by
  obtain ⟨us, heq, hbefore, hr⟩ := h
  refine ⟨us, heq, hbefore, fun t ts ts' hrest ↦ ?_⟩
  rw [EStateM.run_bind, hr t ts ts' hrest]

theorem Settles.bind {p : Parser α} {g : α → Parser β} {before rest : List Token}
    {after last : Feed} {a : α} {r : Feed → EStateM.Result Failure Feed β}
    (h : Settles p before rest after (.ok a))
    (hg : Settles (g a) after.before after.rest last r) :
    Settles (p >>= g) before rest last r := by
  obtain ⟨us, rfl, hbefore, hp⟩ := h
  obtain ⟨vs, heq, hlast, hr⟩ := hg
  refine ⟨us ++ vs, by simp [heq], by simp [hlast, hbefore], fun t ts ts' hrest ↦ ?_⟩
  -- the token after `us` is the first one of `vs` if there is one, so `p` meets the same one
  have hrun : p.run ⟨before, us ++ (vs ++ t :: ts')⟩ = .ok a ⟨after.before, vs ++ t :: ts'⟩ := by
    cases vs with
    | nil => exact hp t ts ts' (heq.trans hrest)
    | cons v vs => exact hp v _ _ heq
  rw [List.append_assoc, EStateM.run_bind, hrun]
  exact hr t ts ts' hrest

namespace LooksAhead

theorem pure (a : α) : LooksAhead (Pure.pure a : Parser α) :=
  fun _ _ ↦ ⟨[], rfl, rfl, fun _ _ _ _ ↦ rfl⟩

theorem throw (f : Failure) : LooksAhead (MonadExcept.throw f : Parser α) :=
  fun _ _ ↦ ⟨[], rfl, rfl, fun _ _ _ _ ↦ rfl⟩

theorem bind {p : Parser α} {g : α → Parser β} (h : LooksAhead p) (hg : ∀ a, LooksAhead (g a)) :
    LooksAhead (p >>= g) := by
  intro before rest
  have hp := h before rest
  rw [EStateM.run_bind]
  cases hrun : p.run ⟨before, rest⟩ with
  | error f after =>
    rw [hrun] at hp
    exact hp.bind_error
  | ok a after =>
    rw [hrun] at hp
    have hq := hg a after.before after.rest
    simp only
    cases hrun' : (g a).run after with
    | ok b last =>
      rw [hrun'] at hq
      exact hp.bind hq
    | error f last =>
      rw [hrun'] at hq
      exact hp.bind hq

/-- A parser that decides by its next token, and goes on before or behind it. -/
theorem of_first {p : Parser α} (hp : Starves p)
    (h : ∀ t, ∃ q : Parser α, LooksAhead q ∧
      ((∀ before ts, p.run ⟨before, t :: ts⟩ = q.run ⟨t :: before, ts⟩) ∨
        ∀ before ts, p.run ⟨before, t :: ts⟩ = q.run ⟨before, t :: ts⟩)) : LooksAhead p := by
  intro before rest
  cases rest with
  | nil =>
    rw [hp before]
    exact ⟨[], rfl, rfl, fun _ _ _ hrest ↦ by cases hrest⟩
  | cons t ts =>
    obtain ⟨q, hq, hrun | hrun⟩ := h t
    · have hsettles := hq (t :: before) ts
      rw [hrun]
      cases hresult : q.run ⟨t :: before, ts⟩ with
      | ok a after | error f after =>
        rw [hresult] at hsettles
        exact hsettles.cons (hrun before)
    · have hsettles := hq before (t :: ts)
      rw [hrun]
      cases hresult : q.run ⟨before, t :: ts⟩ with
      | ok a after | error f after =>
        rw [hresult] at hsettles
        exact hsettles.of_run_eq (hrun before)

theorem bounded {p : Nat → Parser α} (h : ∀ n, LooksAhead (p n))
    (hagree : ∀ m n n', m ≤ n → m ≤ n' → Agree m (p n) (p n')) : LooksAhead (bounded p) := by
  have hrun (n : Nat) (feed : Feed) (hn : feed.rest.length ≤ n) :
      (Parser.bounded p).run feed = (p n).run feed :=
    (hagree feed.rest.length feed.rest.length n (Nat.le_refl _) hn feed (Nat.le_refl _)).1
  -- the parser within any bound that covers the tokens settles what the bounded one does
  have hsettles {before rest : List Token} {after : Feed}
      {r : Feed → EStateM.Result Failure Feed α}
      (hr : ∀ n, rest.length ≤ n → Settles (p n) before rest after r) :
      Settles (Parser.bounded p) before rest after r := by
    obtain ⟨us, heq, hbefore, -⟩ := hr rest.length (Nat.le_refl _)
    refine ⟨us, heq, hbefore, fun t ts ts' hrest ↦ ?_⟩
    obtain ⟨us', heq', -, hr⟩ := hr (rest.length + (us ++ t :: ts').length) (Nat.le_add_right _ _)
    obtain rfl : us = us' := List.append_cancel_right (heq.symm.trans heq')
    rw [hrun _ _ (Nat.le_add_left _ _)]
    exact hr t ts ts' hrest
  intro before rest
  cases hresult : (Parser.bounded p).run ⟨before, rest⟩ with
  | ok a after | error f after =>
    refine hsettles fun n hn ↦ ?_
    have hp := h n before rest
    rw [hrun n _ hn] at hresult
    rw [hresult] at hp
    exact hp

end LooksAhead

theorem LooksAhead.discard {p : Parser α} (h : LooksAhead p) : LooksAhead (discard p) := by
  rw [discard_eq_bind]
  exact h.bind fun _ ↦ .pure ()

theorem looksAhead_accept? (kinds : List Token.Kind) : LooksAhead (accept? kinds) := by
  by_cases hk : kinds = []
  · rw [hk]
    exact .pure none
  refine .of_first (starves_accept? hk) fun t ↦ ?_
  by_cases ht : t.kind ≠ endOfText ∧ t.kind ∈ kinds
  · refine ⟨pure (some t), .pure _, .inl fun before ts ↦ ?_⟩
    rw [run_accept?_cons, if_pos ht]
    rfl
  · refine ⟨pure none, .pure _, .inr fun before ts ↦ ?_⟩
    rw [run_accept?_cons, if_neg ht]
    rfl

theorem looksAhead_require (kind : Token.Kind) (wording : String)
    (fault : Diagnostic.GrammarFault) : LooksAhead (require kind wording fault) := by
  refine .of_first (starves_require kind wording fault) fun t ↦ ?_
  by_cases ht : t.kind ≠ endOfText ∧ t.kind = kind
  · refine ⟨pure t, .pure _, .inl fun before ts ↦ ?_⟩
    rw [run_require_cons, if_pos ht]
    rfl
  · let expected := if fault = .expectedToken then requiredLexeme? kind else none
    refine ⟨fail fault t wording expected, .throw _, .inr fun before ts ↦ ?_⟩
    rw [run_require_cons, if_neg ht]

theorem looksAhead_isFinished : LooksAhead isFinished := by
  refine .of_first (starves_next.bind _) fun t ↦ ?_
  exact ⟨pure (decide (t.kind = endOfText)), .pure _, .inr fun before ts ↦ rfl⟩

/-! ### Expressions -/

theorem LooksAhead.primaryOver {inner : Parser Expr} (h : LooksAhead inner) :
    LooksAhead (primaryOver inner) := by
  refine .of_first (starves_primaryOver inner) fun t ↦ ?_
  rcases primaryOver_cases t with ⟨e, -, hrun⟩ | ⟨-, hrun⟩ | hrun
  · exact ⟨Pure.pure e, .pure e, .inl (hrun inner)⟩
  · have hgrouping : LooksAhead (groupingOver inner) :=
      h.bind fun e ↦ (looksAhead_require _ _ _).discard.bind fun _ ↦ .pure _
    exact ⟨_, hgrouping, .inl (hrun inner)⟩
  · exact ⟨_, .throw _, .inr (hrun inner)⟩

theorem LooksAhead.unaryOver {inner : Parser Expr} (h : LooksAhead inner) (n : Nat) :
    LooksAhead (unaryOver inner n) := by
  induction n with
  | zero => exact .throw _
  | succ n ih =>
    refine (looksAhead_accept? _).bind fun operator ↦ ?_
    cases operator with
    | some operator => exact ih.bind fun e ↦ .pure _
    | none => exact h.primaryOver

theorem LooksAhead.operands {operand : Parser Expr} (h : LooksAhead operand)
    (operators : List Token.Kind) (n : Nat) (left : Expr) :
    LooksAhead (operands operators operand n left) := by
  induction n generalizing left with
  | zero => exact .throw _
  | succ n ih =>
    refine (looksAhead_accept? _).bind fun operator ↦ ?_
    cases operator with
    | some operator => exact h.bind fun right ↦ ih _
    | none => exact .pure left

theorem LooksAhead.tier {operand : Parser Expr} (h : LooksAhead operand)
    (operators : List Token.Kind) (n : Nat) : LooksAhead (tier operators operand n) :=
  h.bind (h.operands operators n)

theorem LooksAhead.assignmentOver {target : Parser Expr} (h : LooksAhead target) (n : Nat) :
    LooksAhead (assignmentOver target n) := by
  induction n with
  | zero => exact .throw _
  | succ n ih =>
    refine h.bind fun e ↦ (looksAhead_accept? _).bind fun sign ↦ ?_
    cases sign with
    | none => exact .pure e
    | some sign =>
      refine ih.bind fun value ↦ ?_
      cases e with
      | reference name => exact .pure _
      | _ => exact .throw _

theorem looksAhead_expressionWithin (n : Nat) : LooksAhead (expressionWithin n) := by
  induction n with
  | zero => exact .throw _
  | succ n ih =>
    have hfactor : LooksAhead (factorOver (expressionWithin n) (n + 1)) :=
      (ih.unaryOver (n + 1)).tier _ (n + 1)
    have hcomparison : LooksAhead (comparisonOver (expressionWithin n) (n + 1)) :=
      (hfactor.tier _ (n + 1)).tier _ (n + 1)
    have hequality : LooksAhead (equalityOver (expressionWithin n) (n + 1)) :=
      hcomparison.tier _ (n + 1)
    exact hequality.assignmentOver (n + 1)

theorem looksAhead_expression : LooksAhead expression :=
  .bounded looksAhead_expressionWithin fun _ _ _ ↦ agree_expressionWithin

/-! ### Statements -/

theorem looksAhead_closed (s : Stmt) (wording : String) : LooksAhead (closed s wording) :=
  (looksAhead_require _ _ _).discard.bind fun _ ↦ .pure s

theorem looksAhead_varDeclaration : LooksAhead varDeclaration := by
  rw [varDeclaration_eq]
  refine (looksAhead_require _ _ _).bind fun name ↦ (looksAhead_accept? _).bind fun sign ↦ ?_
  cases sign with
  | some sign => exact looksAhead_expression.bind fun e ↦ looksAhead_closed _ _
  | none => exact looksAhead_closed _ _

theorem looksAhead_declaration : LooksAhead declaration := by
  refine (looksAhead_accept? _).bind fun keyword ↦ ?_
  cases keyword with
  | some keyword => exact looksAhead_varDeclaration
  | none =>
    refine (looksAhead_accept? _).bind fun keyword ↦ ?_
    cases keyword with
    | some keyword => exact looksAhead_expression.bind fun e ↦ looksAhead_closed _ _
    | none => exact looksAhead_expression.bind fun e ↦ looksAhead_closed _ _

theorem looksAhead_programWithin (n : Nat) : LooksAhead (programWithin n) := by
  induction n with
  | zero => exact .throw _
  | succ n ih =>
    refine looksAhead_isFinished.bind fun finished ↦ ?_
    cases finished with
    | true => exact .pure []
    | false => exact looksAhead_declaration.bind fun s ↦ ih.bind fun ss ↦ .pure (s :: ss)

theorem looksAhead_program : LooksAhead program :=
  .bounded looksAhead_programWithin fun _ _ _ ↦ agree_programWithin

end LoxLang.Parser
