import LoxLang.Proofs.Parsing.Refusals
import LoxLang.Proofs.Recursion

/-!
The parser ends on every list of tokens.

The parser without bounds is a recursion that need not end, and has no result where it does not
(`Unbounded`). Each of its calls comes after a token was taken or is of a tighter nonterminal, so it
ends, and as the parser within bounds does (`follows_program`). Tokens behind the first end of text
are not looked at, and without an end of text there is no result but a failure (`parse_ends`).
-/

set_option autoImplicit false
set_option relaxedAutoImplicit false

namespace LoxLang

open Filter (atTop)
open Token.Kind Grammar

/-- A parser that may go on for ever. -/
abbrev Unbounded := ExceptT Failure (StateT Feed Option)

namespace Unbounded

open LoxLang.Parser (accept? next take require isFinished literalWord? assignTo closed)

variable {α β : Type}

/-- A parser that ends, as a part of one that need not. -/
def ofParser (p : Parser α) : Unbounded α := fun feed ↦
  match p.run feed with
  | .ok a after => some (.ok a, after)
  | .error f after => some (.error f, after)

/-! ### The parser without bounds

Each part goes down to some depth of calls inside one another, and has no result where the tokens
lead deeper. -/

mutual

def expression : Nat → Nonterminal → Unbounded Expr
  | 0, _ => fun _ ↦ none
  | depth + 1, .expression => expression depth .assignment
  | depth + 1, .assignment => do
    let target ← expression depth (.tier .equality)
    match ← ofParser (accept? [.equal]) with
    | some sign =>
      let value ← expression depth .assignment
      ofParser (assignTo target sign value)
    | none => return target
  | depth + 1, .tier t => do
    operands depth t (← expression depth t.operand)
  | depth + 1, .unary => do
    match ← ofParser (accept? [.bang, .minus]) with
    | some operator => return .unary operator (← expression depth .unary)
    | none => expression depth .primary
  | depth + 1, .primary => do
    if let some value := literalWord? (← ofParser next).kind then
      ofParser (discard take)
      return .literal value
    else if let some t ← ofParser (accept? [.number, .string]) then
      return .literal t.literal
    else if let some name ← ofParser (accept? [.identifier]) then
      return .reference name
    else if let some _ ← ofParser (accept? [.leftParen]) then
      let e ← expression depth .expression
      ofParser (discard (require .rightParen "Expect ')' after expression."))
      return .grouping e
    else
      ofParser (Parser.fail .expectedExpression (← ofParser next) "Expect expression.")

def operands : Nat → Tier → Expr → Unbounded Expr
  | 0, _, _ => fun _ ↦ none
  | depth + 1, t, left => do
    match ← ofParser (accept? t.operators) with
    | some operator =>
      let right ← expression depth t.operand
      operands depth t (.binary left operator right)
    | none => return left

end

def varDeclaration (depth : Nat) : Unbounded Stmt := do
  let name ← ofParser (require .identifier "Expect variable name." .expectedIdentifier)
  match ← ofParser (accept? [.equal]) with
  | some _ =>
    let initial ← expression depth .expression
    ofParser (closed (.var name (some initial)) "Expect ';' after variable declaration.")
  | none => ofParser (closed (.var name none) "Expect ';' after variable declaration.")

def declaration (depth : Nat) : Unbounded Stmt := do
  match ← ofParser (accept? [.kwVar]) with
  | some _ => varDeclaration depth
  | none =>
    match ← ofParser (accept? [.kwPrint]) with
    | some _ =>
      let value ← expression depth .expression
      ofParser (closed (.print value) "Expect ';' after expression.")
    | none =>
      let value ← expression depth .expression
      ofParser (closed (.expression value) "Expect ';' after value.")

def program : Nat → Unbounded (List Stmt)
  | 0 => fun _ ↦ none
  | depth + 1 => do
    if ← ofParser isFinished then
      return []
    else
      let s ← declaration depth
      return s :: (← program depth)

/-- The statements that a list of tokens spells, if the parser ends on it. -/
noncomputable def parse (tokens : List Token) : Option (Except Failure (List Stmt)) :=
  ending fun depth ↦ (program depth (Feed.ofTokens tokens)).map Prod.fst

/-! ### What ends -/

/-- On at most `n` tokens the first parser ends, and does as the second one. -/
def Follows (n : Nat) (x : Nat → Unbounded α) (p : Parser α) : Prop :=
  ∀ feed : Feed, feed.rest.length ≤ n → ∀ᶠ depth in atTop, x depth feed = ofParser p feed

theorem eventually_bind {x : Nat → Unbounded α} {p : Parser α} {f : Nat → α → Unbounded β}
    {g : α → Parser β} {feed : Feed} (h : ∀ᶠ depth in atTop, x depth feed = ofParser p feed)
    (hfg : ∀ a after, p.run feed = .ok a after →
      ∀ᶠ depth in atTop, f depth a after = ofParser (g a) after) :
    ∀ᶠ depth in atTop, (x depth >>= f depth) feed = ofParser (p >>= g) feed := by
  unfold ofParser at h ⊢
  simp only [EStateM.run_bind]
  cases hrun : p.run feed with
  | error e after =>
    filter_upwards [h] with depth hx
    rw [unbounded_bind_apply, hx, hrun]
    rfl
  | ok a after =>
    filter_upwards [h, hfg a after hrun] with depth hx hf
    rw [unbounded_bind_apply, hx, hrun]
    exact hf

namespace Follows

variable {n : Nat}

theorem mono {k : Nat} {x : Nat → Unbounded α} {p : Parser α} (h : Follows n x p) (hk : k ≤ n) :
    Follows k x p :=
  fun feed hfeed ↦ h feed (Nat.le_trans hfeed hk)

theorem of_succ {x : Nat → Unbounded α} {p : Parser α}
    (h : Follows n (fun depth ↦ x (depth + 1)) p) : Follows n x p :=
  fun feed hfeed ↦ eventually_of_succ (h feed hfeed)

theorem ofParser (n : Nat) (p : Parser α) : Follows n (fun _ ↦ ofParser p) p :=
  fun _ _ ↦ .of_forall fun _ ↦ rfl

theorem pure (n : Nat) (a : α) : Follows n (fun _ ↦ Pure.pure a) (Pure.pure a) :=
  fun _ _ ↦ .of_forall fun _ ↦ rfl

variable {x : Nat → Unbounded α} {p : Parser α} {f : Nat → α → Unbounded β} {g : α → Parser β}

theorem bind (h : Follows n x p) (hp : Parser.Shrinks p)
    (hfg : ∀ a, Follows n (fun depth ↦ f depth a) (g a)) :
    Follows n (fun depth ↦ x depth >>= f depth) (p >>= g) := by
  intro feed hfeed
  refine eventually_bind (h feed hfeed) fun a after hrun ↦ ?_
  have hshorter := (hp n feed hfeed).2 a after hrun
  exact hfg a after (Nat.le_trans hshorter hfeed)

/-- Behind a parser that takes a token it is enough to follow on one token fewer. -/
theorem bind_of_consumes (h : Follows (n + 1) x p) (hp : Parser.Consumes p)
    (hfg : ∀ a, Follows n (fun depth ↦ f depth a) (g a)) :
    Follows (n + 1) (fun depth ↦ x depth >>= f depth) (p >>= g) := by
  intro feed hfeed
  refine eventually_bind (h feed hfeed) fun a after hrun ↦ ?_
  have hshorter := hp feed a after hrun
  exact hfg a after (by omega)

theorem accept? {kinds : List Token.Kind} (hk : kinds ≠ [])
    {f : Nat → Option Token → Unbounded β} {g : Option Token → Parser β}
    (hsome : ∀ t, Follows n (fun depth ↦ f depth (some t)) (g (some t)))
    (hnone : Follows (n + 1) (fun depth ↦ f depth none) (g none)) :
    Follows (n + 1) (fun depth ↦ Unbounded.ofParser (Parser.accept? kinds) >>= f depth)
      (Parser.accept? kinds >>= g) := by
  rintro ⟨before, rest⟩ hrest
  refine eventually_bind (.of_forall fun _ ↦ rfl) fun a after hrun ↦ ?_
  cases rest with
  | nil =>
    rw [Parser.starves_accept? hk before] at hrun
    cases hrun
  | cons t ts =>
    rw [Parser.run_accept?_cons] at hrun
    split at hrun
    · cases hrun
      exact hsome t _ (Nat.le_of_succ_le_succ hrest)
    · cases hrun
      exact hnone _ hrest

/-- Where no token is left, a parser that needs one has nothing to go on with. -/
theorem of_starves (hp : Parser.Starves p) (f : Nat → α → Unbounded β) {q : Parser β}
    (hq : Parser.Starves q) :
    Follows 0 (fun depth ↦ Unbounded.ofParser p >>= f depth) q := by
  rintro ⟨before, rest⟩ hrest
  obtain rfl : rest = [] := List.length_eq_zero_iff.mp (Nat.le_zero.mp hrest)
  refine .of_forall fun depth ↦ ?_
  show (Unbounded.ofParser p >>= f depth) _ = _
  rw [unbounded_bind_apply]
  unfold Unbounded.ofParser
  rw [hp before, hq before]
  rfl

end Follows

/-! ### Expressions -/

section Expressions

variable {n : Nat}

theorem follows_primary
    (h : ∀ k < n, Follows k (expression · .expression) Parser.expression) :
    Follows n (expression · .primary) Parser.primary := by
  refine .of_succ ?_
  simp only [expression]
  rintro ⟨before, rest⟩ hrest
  rw [Parser.primary_eq]
  cases rest with
  | nil => exact .of_forall fun _ ↦ rfl
  | cons t ts =>
    obtain ⟨kind, lexeme, literal, line⟩ := t
    cases kind
    case leftParen =>
      have hgrouping : Follows ts.length (fun depth ↦ do
          let e ← expression depth .expression
          ofParser (discard (require .rightParen "Expect ')' after expression."))
          return .grouping e) (Parser.groupingOver Parser.expression) :=
        (h ts.length hrest).bind (Parser.shrinks_reader .expression) fun e ↦
          (Follows.ofParser _ _).bind (Parser.consumes_require _ _ _).discard.shrinks fun _ ↦
            .pure _ _
      exact hgrouping ⟨⟨.leftParen, lexeme, literal, line⟩ :: before, ts⟩ (Nat.le_refl _)
    all_goals exact .of_forall fun _ ↦ rfl

theorem follows_unary (h : ∀ k < n, Follows k (expression · .expression) Parser.expression) :
    Follows n (expression · .unary) Parser.unary := by
  induction n with
  | zero =>
    refine .of_succ ?_
    simp only [expression]
    exact .of_starves (Parser.starves_accept? (by simp)) _ (Parser.starves_reader .unary)
  | succ n ih =>
    refine .of_succ ?_
    simp only [expression]
    rw [Parser.unary_eq]
    refine .accept? (by simp) (fun operator ↦ ?_) (follows_primary h)
    have hoperand := ih fun k hk ↦ h k (Nat.lt_succ_of_lt hk)
    exact hoperand.bind (Parser.shrinks_reader .unary) fun e ↦ .pure n _

variable {t : Tier}

theorem follows_operands (h : Follows n (expression · t.operand) (Parser.reader t.operand))
    (left : Expr) : Follows n (operands · t left) (Parser.chain t left) := by
  induction n generalizing left with
  | zero =>
    refine .of_succ ?_
    simp only [operands]
    exact .of_starves (Parser.starves_accept? t.operators_ne_nil) _ (Parser.starves_chain t left)
  | succ n ih =>
    refine .of_succ ?_
    simp only [operands]
    rw [Parser.chain_eq]
    refine .accept? t.operators_ne_nil (fun operator ↦ ?_) (.pure _ left)
    have hoperand := h.mono (Nat.le_succ n)
    exact hoperand.bind (Parser.shrinks_reader _) fun right ↦ ih hoperand _

theorem follows_tier (h : Follows n (expression · t.operand) (Parser.reader t.operand)) :
    Follows n (expression · (.tier t)) (Parser.reader (.tier t)) := by
  refine .of_succ ?_
  simp only [expression]
  rw [Parser.tier_eq]
  exact h.bind (Parser.shrinks_reader _) (follows_operands h)

theorem follows_equality (h : ∀ k < n, Follows k (expression · .expression) Parser.expression) :
    Follows n (expression · (.tier .equality)) Parser.equality :=
  follows_tier (t := .equality) (follows_tier (t := .comparison) (follows_tier (t := .term)
    (follows_tier (t := .factor) (follows_unary h))))

theorem follows_assignment
    (htarget : Follows n (expression · (.tier .equality)) Parser.equality)
    (h : ∀ k < n, Follows k (expression · .assignment) Parser.expression) :
    Follows n (expression · .assignment) Parser.expression := by
  refine .of_succ ?_
  simp only [expression]
  rw [Parser.expression_eq]
  refine htarget.bind (Parser.shrinks_reader (.tier .equality)) fun target ↦ ?_
  have hsign : Parser.Starves (accept? [equal]) := Parser.starves_accept? (by simp)
  cases n with
  | zero => exact .of_starves hsign _ (hsign.bind _)
  | succ n =>
    refine .accept? (by simp) (fun sign ↦ ?_) (.pure _ target)
    exact (h n (Nat.lt_succ_self n)).bind (Parser.shrinks_reader .expression) fun value ↦
      .ofParser n _

theorem follows_expression (n : Nat) :
    Follows n (expression · .expression) Parser.expression := by
  have hassignment : Follows n (expression · .assignment) Parser.expression := by
    induction n using Nat.strongRecOn with
    | ind n ih =>
      refine follows_assignment (follows_equality fun k hk ↦ .of_succ ?_) ih
      simp only [expression]
      exact ih k hk
  refine .of_succ ?_
  simp only [expression]
  exact hassignment

end Expressions

/-! ### Statements -/

theorem follows_closed (n : Nat) (f : Expr → Stmt) (wording : String) :
    Follows n (fun depth ↦ do
        let e ← expression depth .expression
        ofParser (closed (f e) wording))
      (do closed (f (← Parser.expression)) wording) :=
  (follows_expression n).bind (Parser.shrinks_reader .expression) fun _ ↦ .ofParser n _

theorem follows_varDeclaration (n : Nat) :
    Follows n varDeclaration Parser.varDeclaration := by
  rw [Parser.varDeclaration_eq]
  refine (Follows.ofParser n _).bind (Parser.consumes_require _ _ _).shrinks fun name ↦ ?_
  have hsign : Parser.Starves (accept? [equal]) := Parser.starves_accept? (by simp)
  cases n with
  | zero => exact .of_starves hsign _ (hsign.bind _)
  | succ n =>
    refine .accept? (by simp) (fun sign ↦ ?_) (.ofParser _ _)
    exact follows_closed n (fun e ↦ .var name (some e)) _

theorem follows_declaration (n : Nat) : Follows n declaration Parser.declaration := by
  have hkeyword : Parser.Starves (accept? [kwVar]) := Parser.starves_accept? (by simp)
  cases n with
  | zero => exact .of_starves hkeyword _ (hkeyword.bind _)
  | succ n =>
    refine .accept? (by simp) (fun keyword ↦ follows_varDeclaration n) ?_
    refine .accept? (by simp) (fun keyword ↦ ?_) ?_
    · exact follows_closed n .print _
    · exact follows_closed (n + 1) .expression _

theorem follows_program (n : Nat) : Follows n program Parser.program := by
  have hfinished : Parser.Starves isFinished := Parser.starves_next.bind _
  refine .of_succ ?_
  induction n with
  | zero => exact .of_starves hfinished _ Parser.starves_program
  | succ n ih =>
    rw [Parser.program_eq]
    refine (Follows.ofParser _ _).bind Parser.shrinks_isFinished fun finished ↦ ?_
    cases finished with
    | true => exact .pure _ []
    | false =>
      refine (follows_declaration (n + 1)).bind_of_consumes Parser.consumes_declaration fun s ↦ ?_
      exact (Follows.of_succ ih).bind Parser.shrinks_program fun ss ↦ .pure n _

theorem parse_eq (tokens : List Token) : parse tokens = some (LoxLang.parse tokens) := by
  refine ending_eq_some_iff.mpr ?_
  filter_upwards [follows_program _ (Feed.ofTokens tokens) (Nat.le_refl _)] with depth hdepth
  rw [hdepth, LoxLang.parse, ofParser]
  cases Parser.program.run (Feed.ofTokens tokens) <;> rfl

end Unbounded

/-! ### The first end of text -/

theorem exists_first_end {tokens : List Token} (h : ∃ t ∈ tokens, t.kind = endOfText) :
    ∃ us final ts, tokens = us ++ final :: ts ∧ Unended us ∧ final.kind = endOfText := by
  induction tokens with
  | nil => simp at h
  | cons t ts ih =>
    by_cases ht : t.kind = endOfText
    · exact ⟨[], t, ts, rfl, unended_nil, ht⟩
    · obtain ⟨us, final, vs, rfl, hus, hfinal⟩ := ih (by simpa [ht] using h)
      exact ⟨t :: us, final, vs, rfl, unended_cons.mpr ⟨ht, hus⟩, hfinal⟩

/-- Where the parser refuses tokens of which only the last one ends the text, it does not take them
all. -/
theorem Grammar.Refusal.ne_nil {us ts taken : List Token} {final : Token} {d : Diagnostic}
    (h : Refusal taken ts d) (hfinal : final.kind = endOfText)
    (htokens : us ++ [final] = taken ++ ts) : ts ≠ [] := by
  rintro rfl
  rw [List.append_nil] at htokens
  generalize hrest : ([] : List Token) = rest at h
  cases h with
  | misfit => cases hrest
  | @target front vs ws _ sign wording expected _ _ _ _ _ hsign hvalue _ =>
    have hunended : Unended (sign :: ws) := unended_cons.mpr ⟨by simp [hsign], hvalue.unended⟩
    have hlast : (sign :: ws).getLast? = some final := by
      have hboth := congrArg List.getLast? htokens
      rw [List.getLast?_concat, List.getLast?_append, List.getLast?_cons, Option.some_or] at hboth
      rw [List.getLast?_cons, hboth]
    exact hunended final (List.mem_of_getLast? hlast) hfinal

/-- Tokens behind the first end of text change nothing. -/
theorem parse_append_of_refused {us ts : List Token} {final : Token} {d : Diagnostic}
    (hfinal : final.kind = endOfText) (h : parse (us ++ [final]) = .error (.diagnostic d)) :
    parse (us ++ final :: ts) = .error (.diagnostic d) := by
  rw [parse] at h
  cases hrun : Parser.program.run (.ofTokens (us ++ [final])) with
  | ok program after =>
    rw [hrun] at h
    cases h
  | error f after =>
    rw [hrun] at h
    obtain rfl : f = .diagnostic d := Except.error.inj h
    obtain ⟨before, rest⟩ := after
    obtain ⟨htokens, hsame⟩ := Parser.exists_taken hrun
    obtain ⟨taken, rfl⟩ : ∃ taken, before = List.reverse taken := ⟨before.reverse, by simp⟩
    have hrefusal : Refusal taken.reverse.reverse rest d :=
      Parser.blames_program _ .nil (us ++ [final]) d _ (Nat.le_refl _) hrun
    rw [List.reverse_reverse] at htokens hsame hrefusal
    obtain ⟨t, rest, rfl⟩ := List.exists_cons_of_ne_nil (hrefusal.ne_nil hfinal htokens)
    have hlonger : us ++ final :: ts = taken ++ t :: (rest ++ ts) := by
      rw [List.append_cons, htokens]
      simp
    rw [hlonger, parse, hsame t rest (rest ++ ts) rfl]

/-- The parser ends on every list of tokens, also without bounds. What stands behind the first end of
text does not count: the tokens before it are a program, and then the parser stands in front of that
end, or they are refused at one of them or at that end. Without an end of text the parser refuses a
token or runs out of them. -/
theorem parse_ends (tokens : List Token) :
    Unbounded.parse tokens = some (parse tokens) ∧
    ((∃ us final ts, tokens = us ++ final :: ts ∧ Unended us ∧ final.kind = endOfText ∧
        parse tokens = parse (us ++ [final]) ∧
        ((∃ program, parse tokens = .ok program ∧
            Parser.program.run (.ofTokens tokens) = .ok program ⟨us.reverse, final :: ts⟩) ∨
          ∃ t ∈ us ++ [final], ∃ fault wording expected,
            parse tokens = .error (.diagnostic (.atToken (.grammar fault wording expected) t)))) ∨
      Unended tokens ∧
        (parse tokens = .error (.mishap .tokensExhausted) ∨
          ∃ t ∈ tokens, ∃ fault wording expected,
            parse tokens = .error (.diagnostic (.atToken (.grammar fault wording expected) t)))) := by
  refine ⟨Unbounded.parse_eq tokens, ?_⟩
  by_cases hend : ∃ t ∈ tokens, t.kind = endOfText
  · obtain ⟨us, final, ts, rfl, hus, hfinal⟩ := exists_first_end hend
    refine .inl ⟨us, final, ts, rfl, hus, hfinal, ?_⟩
    rcases parse_cases hus hfinal with ⟨ss, hcut, hss⟩ | ⟨t, ht, fault, wording, expected, hcut⟩
    · have hrun := Parser.run_program_append hss [] (final :: ts)
      rw [EStateM.run_bind, Parser.run_program_of_eq hfinal] at hrun
      simp only [List.append_nil, EStateM.run_pure] at hrun
      have hparse : parse (us ++ final :: ts) = .ok ss := by
        rw [parse, Feed.ofTokens, hrun]
      exact ⟨hparse.trans hcut.symm, .inl ⟨ss, hparse, hrun⟩⟩
    · have hparse : parse (us ++ final :: ts) = _ := parse_append_of_refused hfinal hcut
      exact ⟨hparse.trans hcut.symm, .inr ⟨t, ht, fault, wording, expected, hparse⟩⟩
  · have hunended : Unended tokens := fun t ht hkind ↦ hend ⟨t, ht, hkind⟩
    refine .inr ⟨hunended, ?_⟩
    have houtcome := Parser.run_program [] tokens
    rw [parse, Feed.ofTokens]
    cases hrun : Parser.program.run ⟨[], tokens⟩ with
    | ok program after =>
      rw [hrun] at houtcome
      obtain ⟨us, final, ts, rfl, hfinal, -⟩ := houtcome
      exact absurd hfinal (hunended final (by simp))
    | error f after =>
      rw [hrun] at houtcome
      rcases houtcome with ⟨t, ht, fault, wording, expected, rfl⟩ | ⟨-, rfl⟩
      · exact .inr ⟨t, ht, fault, wording, expected, rfl⟩
      · exact .inl rfl

end LoxLang
