import LoxLang.Proofs.Grammar
import LoxLang.Proofs.Parsing.Bounds

/-!
The equations of the parser.

A bound that covers the tokens that are left never shows in a result (`agree_expressionWithin`,
`agree_programWithin`). So every function of the parser satisfies the equation that one would write
for it without a bound: `primary_eq`, `unary_eq`, `tier_eq`, `chain_eq`, `expression_eq`,
`program_eq`.
-/

set_option autoImplicit false
set_option relaxedAutoImplicit false

namespace LoxLang.Parser

open Token.Kind Grammar

variable {α β : Type}

/-! ### Parsers within bounds -/

/-- The rest of a grouping, after its parenthesis. -/
def groupingOver (inner : Parser Expr) : Parser Expr := do
  let e ← inner
  discard (require .rightParen "Expect ')' after expression.")
  return .grouping e

/-- The first token of an operand decides: it is the operand, or it opens a grouping, or it is
refused. -/
theorem primaryOver_cases (t : Token) :
    (∃ e, Derives .primary [t] e ∧ ∀ inner before ts,
      (primaryOver inner).run ⟨before, t :: ts⟩ = .ok e ⟨t :: before, ts⟩) ∨
    (t.kind = leftParen ∧ ∀ inner before ts,
      (primaryOver inner).run ⟨before, t :: ts⟩ = (groupingOver inner).run ⟨t :: before, ts⟩) ∨
    ∀ inner before ts, (primaryOver inner).run ⟨before, t :: ts⟩ =
      (fail .expectedExpression t "Expect expression.").run ⟨before, t :: ts⟩ := by
  obtain ⟨kind, lexeme, literal, line⟩ := t
  cases kind
  case kwTrue => exact .inl ⟨_, .true rfl, fun _ _ _ ↦ rfl⟩
  case kwFalse => exact .inl ⟨_, .false rfl, fun _ _ _ ↦ rfl⟩
  case kwNil => exact .inl ⟨_, .nil rfl, fun _ _ _ ↦ rfl⟩
  case number => exact .inl ⟨_, .number rfl, fun _ _ _ ↦ rfl⟩
  case string => exact .inl ⟨_, .string rfl, fun _ _ _ ↦ rfl⟩
  case identifier => exact .inl ⟨_, .reference rfl, fun _ _ _ ↦ rfl⟩
  case leftParen => exact .inr (.inl ⟨rfl, fun _ _ _ ↦ rfl⟩)
  all_goals exact .inr (.inr fun _ _ _ ↦ rfl)

theorem run_primaryOver_of_leftParen {t : Token} (ht : t.kind = leftParen) (inner : Parser Expr)
    (before ts : List Token) :
    (primaryOver inner).run ⟨before, t :: ts⟩ = (groupingOver inner).run ⟨t :: before, ts⟩ := by
  obtain ⟨kind, lexeme, literal, line⟩ := t
  cases ht
  rfl

theorem starves_primaryOver (inner : Parser Expr) : Starves (primaryOver inner) :=
  starves_next.bind _

theorem starves_unaryOver (inner : Parser Expr) (n : Nat) : Starves (unaryOver inner n) := by
  cases n with
  | zero => exact starves_exhausted
  | succ n => exact (starves_accept? (by simp)).bind _

theorem starves_operands {operators : List Token.Kind} (h : operators ≠ []) (operand : Parser Expr)
    (n : Nat) (left : Expr) : Starves (operands operators operand n left) := by
  cases n with
  | zero => exact starves_exhausted
  | succ n => exact (starves_accept? h).bind _

theorem Starves.tier {operand : Parser Expr} (h : Starves operand) (operators : List Token.Kind)
    (n : Nat) : Starves (tier operators operand n) :=
  h.bind _

theorem Starves.assignmentOver {target : Parser Expr} (h : Starves target) (n : Nat) :
    Starves (assignmentOver target n) := by
  cases n with
  | zero => exact starves_exhausted
  | succ n => exact h.bind _

theorem Agree.groupingOver {m : Nat} {p q : Parser Expr} (h : Agree m p q) :
    Agree m (groupingOver p) (groupingOver q) :=
  h.bind fun _ ↦ ((consumes_require _ _ _).shrinks m).discard.bind fun _ ↦ .pure m _

theorem Agree.primaryOver {m : Nat} {p q : Parser Expr} (h : ∀ k < m, Agree k p q) :
    Agree m (primaryOver p) (primaryOver q) := by
  rintro ⟨before, rest⟩ hm
  cases rest with
  | nil => simp [starves_primaryOver _ before]
  | cons t ts =>
    rcases primaryOver_cases t with ⟨e, -, hrun⟩ | ⟨-, hrun⟩ | hrun
    · rw [hrun, hrun]
      refine ⟨rfl, fun a after ha ↦ ?_⟩
      obtain ⟨-, rfl⟩ : e = a ∧ (⟨t :: before, ts⟩ : Feed) = after := by simpa using ha
      simp
    · obtain ⟨heq, hshrinks⟩ := (h ts.length hm).groupingOver ⟨t :: before, ts⟩ (Nat.le_refl _)
      rw [hrun, hrun]
      exact ⟨heq, fun a after ha ↦ Nat.le_succ_of_le (hshrinks a after ha)⟩
    · rw [hrun, hrun]
      exact ⟨rfl, fun a after ha ↦ by cases ha⟩

theorem agree_unaryOver {p q : Parser Expr} {m n n' : Nat} (h : ∀ k < m, Agree k p q) (hn : m ≤ n)
    (hn' : m ≤ n') : Agree m (unaryOver p n) (unaryOver q n') := by
  induction m generalizing n n' with
  | zero => exact .of_starves (starves_unaryOver p n) (starves_unaryOver q n')
  | succ m ih =>
    obtain ⟨n, rfl⟩ := Nat.exists_eq_add_of_lt hn
    obtain ⟨n', rfl⟩ := Nat.exists_eq_add_of_lt hn'
    refine Agree.accept? (by simp) (fun t ↦ ?_) (Agree.primaryOver h)
    exact (ih (fun k hk ↦ h k (by omega)) (by omega) (by omega)).bind fun e ↦ .pure m _

theorem agree_operands {operators : List Token.Kind} (hoperators : operators ≠ [])
    {p q : Parser Expr} {m n n' : Nat} (h : Agree m p q) (hn : m ≤ n) (hn' : m ≤ n') (left : Expr) :
    Agree m (operands operators p n left) (operands operators q n' left) := by
  induction m generalizing n n' left with
  | zero =>
    exact .of_starves (starves_operands hoperators p n left) (starves_operands hoperators q n' left)
  | succ m ih =>
    obtain ⟨n, rfl⟩ := Nat.exists_eq_add_of_lt hn
    obtain ⟨n', rfl⟩ := Nat.exists_eq_add_of_lt hn'
    refine Agree.accept? hoperators (fun t ↦ ?_) (.pure _ left)
    refine (h.mono (Nat.le_succ m)).bind fun right ↦ ?_
    exact ih (h.mono (Nat.le_succ m)) (by omega) (by omega) _

theorem Agree.tier {operators : List Token.Kind} (hoperators : operators ≠ []) {p q : Parser Expr}
    {m n n' : Nat} (h : Agree m p q) (hn : m ≤ n) (hn' : m ≤ n') :
    Agree m (tier operators p n) (tier operators q n') :=
  h.bind fun left ↦ agree_operands hoperators h hn hn' left

/-- An assignment of `value` to what stands before the sign, which must be a name. -/
def assignTo (target : Expr) (sign : Token) (value : Expr) : Parser Expr :=
  match target with
  | .reference name => return .assign name value
  | _ => fail .invalidAssignmentTarget sign "Invalid assignment target."

theorem agree_assignTo (m : Nat) (target : Expr) (sign : Token) (value : Expr) :
    Agree m (assignTo target sign value) (assignTo target sign value) := by
  refine fun feed _ ↦ ⟨rfl, fun a after h ↦ ?_⟩
  cases target <;> cases h
  exact Nat.le_refl _

theorem agree_assignmentOver {p q : Parser Expr} (hp : Starves p) (hq : Starves q) {m n n' : Nat}
    (h : Agree m p q) (hn : m ≤ n) (hn' : m ≤ n') :
    Agree m (assignmentOver p n) (assignmentOver q n') := by
  induction m generalizing n n' with
  | zero => exact .of_starves (hp.assignmentOver n) (hq.assignmentOver n')
  | succ m ih =>
    obtain ⟨n, rfl⟩ := Nat.exists_eq_add_of_lt hn
    obtain ⟨n', rfl⟩ := Nat.exists_eq_add_of_lt hn'
    refine h.bind fun e ↦ Agree.accept? (by simp) (fun sign ↦ ?_) (.pure _ e)
    refine (ih (h.mono (Nat.le_succ m)) (by omega) (by omega)).bind fun value ↦ ?_
    cases e with
    | reference name => exact .pure m _
    | _ => exact .of_error fun feed a after ha ↦ by cases ha

/-! ### The parsers of the nonterminals -/

/-- The parser of a nonterminal within the bounds `n` for the groupings in it and `n'` for its own
operators. -/
def readerWithin (n n' : Nat) : Nonterminal → Parser Expr
  | .expression => assignmentOver (equalityOver (expressionWithin n) n') n'
  | .assignment => assignmentOver (equalityOver (expressionWithin n) n') n'
  | .tier .equality => equalityOver (expressionWithin n) n'
  | .tier .comparison => comparisonOver (expressionWithin n) n'
  | .tier .term => termOver (expressionWithin n) n'
  | .tier .factor => factorOver (expressionWithin n) n'
  | .unary => unaryOver (expressionWithin n) n'
  | .primary => primaryOver (expressionWithin n)

theorem readerWithin_tier (n n' : Nat) (t : Tier) :
    readerWithin n n' (.tier t) = tier t.operators (readerWithin n n' t.operand) n' := by
  cases t <;> rfl

theorem starves_readerWithin (n n' : Nat) (x : Nonterminal) : Starves (readerWithin n n' x) := by
  have hunary : Starves (unaryOver (expressionWithin n) n') := starves_unaryOver _ n'
  have hfactor : Starves (factorOver (expressionWithin n) n') := hunary.tier _ n'
  have hterm : Starves (termOver (expressionWithin n) n') := hfactor.tier _ n'
  have hcomparison : Starves (comparisonOver (expressionWithin n) n') := hterm.tier _ n'
  have hequality : Starves (equalityOver (expressionWithin n) n') := hcomparison.tier _ n'
  match x with
  | .expression => exact hequality.assignmentOver n'
  | .assignment => exact hequality.assignmentOver n'
  | .tier .equality => exact hequality
  | .tier .comparison => exact hcomparison
  | .tier .term => exact hterm
  | .tier .factor => exact hfactor
  | .unary => exact hunary
  | .primary => exact starves_primaryOver _

theorem starves_expressionWithin (n : Nat) : Starves (expressionWithin n) := by
  cases n with
  | zero => exact starves_exhausted
  | succ n => exact starves_readerWithin n (n + 1) .expression

theorem agree_readerWithin {m n n' k k' : Nat}
    (h : ∀ j < m, Agree j (expressionWithin n) (expressionWithin k)) (hn' : m ≤ n') (hk' : m ≤ k')
    (x : Nonterminal) : Agree m (readerWithin n n' x) (readerWithin k k' x) := by
  have hunary : Agree m (unaryOver (expressionWithin n) n') (unaryOver (expressionWithin k) k') :=
    agree_unaryOver h hn' hk'
  have hfactor : Agree m (factorOver (expressionWithin n) n')
      (factorOver (expressionWithin k) k') := hunary.tier (by simp) hn' hk'
  have hterm : Agree m (termOver (expressionWithin n) n') (termOver (expressionWithin k) k') :=
    hfactor.tier (by simp) hn' hk'
  have hcomparison : Agree m (comparisonOver (expressionWithin n) n')
      (comparisonOver (expressionWithin k) k') := hterm.tier (by simp) hn' hk'
  have hequality : Agree m (equalityOver (expressionWithin n) n')
      (equalityOver (expressionWithin k) k') := hcomparison.tier (by simp) hn' hk'
  have hassignment : Agree m (assignmentOver (equalityOver (expressionWithin n) n') n')
      (assignmentOver (equalityOver (expressionWithin k) k') k') :=
    agree_assignmentOver (starves_readerWithin n n' (.tier .equality))
      (starves_readerWithin k k' (.tier .equality)) hequality hn' hk'
  match x with
  | .expression => exact hassignment
  | .assignment => exact hassignment
  | .tier .equality => exact hequality
  | .tier .comparison => exact hcomparison
  | .tier .term => exact hterm
  | .tier .factor => exact hfactor
  | .unary => exact hunary
  | .primary => exact .primaryOver h

/-- Two bounds that cover the tokens that are left give the same result. -/
theorem agree_expressionWithin {m n k : Nat} (hn : m ≤ n) (hk : m ≤ k) :
    Agree m (expressionWithin n) (expressionWithin k) := by
  induction m using Nat.strongRecOn generalizing n k with
  | ind m ih =>
    cases m with
    | zero => exact .of_starves (starves_expressionWithin n) (starves_expressionWithin k)
    | succ m =>
      obtain ⟨n, rfl⟩ := Nat.exists_eq_add_of_lt hn
      obtain ⟨k, rfl⟩ := Nat.exists_eq_add_of_lt hk
      exact agree_readerWithin (fun j hj ↦ ih j hj (by omega) (by omega)) (by omega) (by omega)
        .expression

/-- The parser of a nonterminal. -/
def reader : Nonterminal → Parser Expr
  | .expression => expression
  | .assignment => expression
  | .tier .equality => equality
  | .tier .comparison => comparison
  | .tier .term => term
  | .tier .factor => factor
  | .unary => unary
  | .primary => primary

theorem starves_reader (x : Nonterminal) : Starves (reader x) := by
  match x with
  | .expression => exact starves_expressionWithin 0
  | .assignment => exact starves_expressionWithin 0
  | .tier .equality => exact starves_readerWithin 0 0 (.tier .equality)
  | .tier .comparison => exact starves_readerWithin 0 0 (.tier .comparison)
  | .tier .term => exact starves_readerWithin 0 0 (.tier .term)
  | .tier .factor => exact starves_readerWithin 0 0 (.tier .factor)
  | .unary => exact starves_readerWithin 0 0 .unary
  | .primary => exact starves_readerWithin 0 0 .primary

theorem agree_reader {m n n' : Nat} (hn : m ≤ n + 1) (hn' : m ≤ n') (x : Nonterminal) :
    Agree m (readerWithin n n' x) (reader x) := by
  have hwithin (k : Nat) (hk : k ≤ m) (y : Nonterminal) :
      Agree k (readerWithin n n' y) (readerWithin k k y) :=
    agree_readerWithin (fun j hj ↦ agree_expressionWithin (by omega) (by omega)) (by omega)
      (Nat.le_refl k) y
  have hexpression : Agree m (readerWithin n n' .expression) expression := by
    refine .bounded fun k hk ↦ ?_
    cases k with
    | zero => exact .of_starves (starves_readerWithin n n' _) (starves_expressionWithin 0)
    | succ k =>
      exact agree_readerWithin (fun j hj ↦ agree_expressionWithin (by omega) (by omega)) (by omega)
        (Nat.le_refl _) .expression
  match x with
  | .expression => exact hexpression
  | .assignment => exact hexpression
  | .tier .equality => exact .bounded fun k hk ↦ hwithin k hk (.tier .equality)
  | .tier .comparison => exact .bounded fun k hk ↦ hwithin k hk (.tier .comparison)
  | .tier .term => exact .bounded fun k hk ↦ hwithin k hk (.tier .term)
  | .tier .factor => exact .bounded fun k hk ↦ hwithin k hk (.tier .factor)
  | .unary => exact .bounded fun k hk ↦ hwithin k hk .unary
  | .primary => exact .bounded fun k hk ↦ hwithin k hk .primary

theorem shrinks_reader (x : Nonterminal) : Shrinks (reader x) := by
  intro m
  have h := agree_reader (Nat.le_succ m) (Nat.le_refl m) x
  exact h.symm.trans h

/-! ### The equations of expressions -/

theorem primary_eq : primary = primaryOver expression := by
  refine bounded_eq fun m ↦ .primaryOver fun k hk ↦ .bounded fun j hj ↦ ?_
  exact agree_expressionWithin (by omega) (Nat.le_refl j)

theorem unary_eq : unary = (do
    match ← accept? [bang, minus] with
    | some operator => return .unary operator (← unary)
    | none => primary) := by
  refine bounded_eq fun m ↦ ?_
  cases m with
  | zero => exact .of_starves (starves_unaryOver _ 0) ((starves_accept? (by simp)).bind _)
  | succ m =>
    refine Agree.accept? (by simp) (fun operator ↦ ?_) ?_
    · exact (agree_reader (by omega) (Nat.le_refl m) .unary).bind fun e ↦ .pure m _
    · exact agree_reader (by omega) (Nat.le_refl _) .primary

/-- The loop of a tier, after its first operand. -/
def chain (t : Tier) (left : Expr) : Parser Expr :=
  bounded fun n ↦ operands t.operators (reader t.operand) n left

theorem starves_chain (t : Tier) (left : Expr) : Starves (chain t left) :=
  fun before ↦ starves_operands t.operators_ne_nil (reader t.operand) 0 left before

theorem agree_chain (t : Tier) {m n : Nat} (hn : m ≤ n) (left : Expr) :
    Agree m (operands t.operators (reader t.operand) n left) (chain t left) :=
  .bounded fun k hk ↦ agree_operands t.operators_ne_nil (shrinks_reader _ k) (by omega)
    (Nat.le_refl k) left

theorem chain_eq (t : Tier) (left : Expr) : chain t left = (do
    match ← accept? t.operators with
    | some operator =>
      let right ← reader t.operand
      chain t (.binary left operator right)
    | none => return left) := by
  refine bounded_eq fun m ↦ ?_
  have hoperators := t.operators_ne_nil
  cases m with
  | zero =>
    exact .of_starves (starves_operands hoperators _ 0 left) ((starves_accept? hoperators).bind _)
  | succ m =>
    refine Agree.accept? hoperators (fun operator ↦ ?_) (.pure _ left)
    exact (shrinks_reader _ m).bind fun right ↦ agree_chain t (Nat.le_refl m) _

theorem tier_eq (t : Tier) : reader (.tier t) = (do chain t (← reader t.operand)) := by
  have hagree (m : Nat) : Agree m (reader (.tier t)) (do chain t (← reader t.operand)) := by
    refine (agree_reader (Nat.le_succ m) (Nat.le_refl m) (.tier t)).symm.trans ?_
    rw [readerWithin_tier]
    refine (agree_reader (Nat.le_succ m) (Nat.le_refl m) t.operand).bind fun left ↦ ?_
    refine .bounded fun k hk ↦ agree_operands t.operators_ne_nil ?_ hk (Nat.le_refl k) left
    exact agree_reader (by omega) hk t.operand
  exact funext fun feed ↦ (hagree _ feed (Nat.le_refl _)).1

theorem expression_eq : expression = (do
    let target ← equality
    match ← accept? [equal] with
    | some sign =>
      let value ← expression
      assignTo target sign value
    | none => return target) := by
  refine bounded_eq fun m ↦ ?_
  cases m with
  | zero => exact .of_starves starves_exhausted ((starves_reader (.tier .equality)).bind _)
  | succ m =>
    have htarget := agree_reader (Nat.le_refl (m + 1)) (Nat.le_refl (m + 1)) (.tier .equality)
    refine htarget.bind fun target ↦ Agree.accept? (by simp) (fun sign ↦ ?_) (.pure _ target)
    have hvalue : Agree m (assignmentOver (equalityOver (expressionWithin m) (m + 1)) m)
        expression := by
      refine Agree.trans ?_ (agree_reader (Nat.le_succ m) (Nat.le_refl m) .expression)
      refine agree_assignmentOver (starves_readerWithin m (m + 1) (.tier .equality))
        (starves_readerWithin m m (.tier .equality)) ?_ (Nat.le_refl m) (Nat.le_refl m)
      exact agree_readerWithin (fun j hj ↦ agree_expressionWithin (by omega) (by omega))
        (Nat.le_succ m) (Nat.le_refl m) (.tier .equality)
    exact hvalue.bind fun value ↦ agree_assignTo m target sign value

/-! ### The equation of programs -/

/-- The end of a statement. -/
def closed (s : Stmt) (wording : String) : Parser Stmt := do
  discard (require .semicolon wording)
  return s

theorem consumes_closed (s : Stmt) (wording : String) : Consumes (closed s wording) :=
  (consumes_require _ _ _).discard.bind fun _ ↦ shrinks_pure s

theorem varDeclaration_eq : varDeclaration = (do
    let name ← require .identifier "Expect variable name." .expectedIdentifier
    match ← accept? [equal] with
    | some _ => closed (.var name (some (← expression))) "Expect ';' after variable declaration."
    | none => closed (.var name none) "Expect ';' after variable declaration.") := by
  refine bind_congr fun name ↦ bind_congr fun sign ↦ ?_
  cases sign with
  | some sign => exact bind_map_left some expression _
  | none => rfl

theorem consumes_varDeclaration : Consumes varDeclaration := by
  rw [varDeclaration_eq]
  refine (consumes_require _ _ _).bind fun name ↦ Consumes.shrinks ?_
  refine .accept? (by simp) (fun sign ↦ Consumes.shrinks ?_) (consumes_closed _ _)
  exact (shrinks_reader .expression).bind_consumes fun e ↦ consumes_closed _ _

theorem consumes_declaration : Consumes declaration := by
  have hclosed (f : Expr → Stmt) (wording : String) :
      Consumes (do closed (f (← expression)) wording) :=
    (shrinks_reader .expression).bind_consumes fun e ↦ consumes_closed _ _
  refine .accept? (by simp) (fun _ ↦ consumes_varDeclaration.shrinks) ?_
  exact .accept? (by simp) (fun _ ↦ (hclosed .print _).shrinks) (hclosed .expression _)

theorem starves_programWithin (n : Nat) : Starves (programWithin n) := by
  cases n with
  | zero => exact starves_exhausted
  | succ n => exact (starves_next.bind _).bind _

theorem shrinks_isFinished : Shrinks isFinished := by
  rintro m ⟨before, rest⟩ -
  refine ⟨rfl, fun b after h ↦ ?_⟩
  cases rest with
  | nil => cases h
  | cons t ts =>
    cases h
    exact Nat.le_refl _

/-- Programs agree where what follows a declaration agrees on fewer tokens. -/
theorem Agree.program {m : Nat} {p q : Parser (List Stmt)} (h : Agree m p q) :
    Agree (m + 1)
      (do if ← isFinished then return [] else return (← declaration) :: (← p))
      (do if ← isFinished then return [] else return (← declaration) :: (← q)) := by
  refine (shrinks_isFinished _).bind fun finished ↦ ?_
  cases finished with
  | true => exact .pure _ []
  | false => exact .bind_of_consumes consumes_declaration fun s ↦ h.bind fun ss ↦ .pure m (s :: ss)

theorem agree_programWithin {m n n' : Nat} (hn : m ≤ n) (hn' : m ≤ n') :
    Agree m (programWithin n) (programWithin n') := by
  induction m generalizing n n' with
  | zero => exact .of_starves (starves_programWithin n) (starves_programWithin n')
  | succ m ih =>
    obtain ⟨n, rfl⟩ := Nat.exists_eq_add_of_lt hn
    obtain ⟨n', rfl⟩ := Nat.exists_eq_add_of_lt hn'
    exact .program (ih (by omega) (by omega))

theorem shrinks_program : Shrinks program := by
  intro m
  have h : Agree m (programWithin m) program :=
    .bounded fun k hk ↦ agree_programWithin hk (Nat.le_refl k)
  exact h.symm.trans h

theorem program_eq : program = (do
    if ← isFinished then
      return []
    else
      return (← declaration) :: (← program)) := by
  refine bounded_eq fun m ↦ ?_
  cases m with
  | zero => exact .of_starves (starves_programWithin 0) ((starves_next.bind _).bind _)
  | succ m =>
    refine Agree.program (.bounded fun k hk ↦ ?_)
    exact agree_programWithin hk (Nat.le_refl k)

theorem starves_program : Starves program :=
  fun before ↦ starves_programWithin 0 before

theorem run_program_of_eq {t : Token} (ht : t.kind = endOfText) (before ts : List Token) :
    program.run ⟨before, t :: ts⟩ = .ok [] ⟨before, t :: ts⟩ := by
  have hfinished : isFinished.run ⟨before, t :: ts⟩ =
      .ok (decide (t.kind = endOfText)) ⟨before, t :: ts⟩ := rfl
  rw [program_eq, EStateM.run_bind, hfinished, decide_eq_true ht]
  rfl

theorem run_program_of_ne {t : Token} (ht : t.kind ≠ endOfText) (before ts : List Token) :
    program.run ⟨before, t :: ts⟩ =
      EStateM.run (do return (← declaration) :: (← program)) ⟨before, t :: ts⟩ := by
  have hfinished : isFinished.run ⟨before, t :: ts⟩ =
      .ok (decide (t.kind = endOfText)) ⟨before, t :: ts⟩ := rfl
  rw [program_eq, EStateM.run_bind, hfinished, decide_eq_false ht, ← program_eq]
  rfl

end LoxLang.Parser
