import LoxLang.Proofs.Parsing.Lookahead
import LoxLang.Proofs.Parsing.Targets

/-!
Where the parser refuses tokens.

A refusal comes behind tokens where the grammar requires what the refusal names, or behind an
assignment whose target is no name (`Refusal`). What may stand behind the tokens that were taken is
handed on to each parser (`Expects`), so that whatever is required can be completed to a text. Since
the parser looks one token ahead and follows the grammar in which any equality may be assigned to,
no text begins with those tokens and the one that is refused (`parse_refuses`).
-/

set_option autoImplicit false
set_option relaxedAutoImplicit false

namespace LoxLang

open Token.Kind

namespace Grammar

/-! ### Tokens that begin a text -/

/-- The tokens begin a whole text, where any equality may be assigned to. -/
def Viable (us : List Token) : Prop :=
  ∃ ds final, Declarations ds ∧ final.kind = endOfText ∧ us <+: ds ++ [final]

theorem Viable.of_prefix {us vs : List Token} (h : Viable vs) (hus : us <+: vs) : Viable us := by
  obtain ⟨ds, final, hds, hfinal, hvs⟩ := h
  exact ⟨ds, final, hds, hfinal, hus.trans hvs⟩

theorem Viable.of_append {us vs : List Token} (h : Viable (us ++ vs)) : Viable us :=
  h.of_prefix (List.prefix_append us vs)

/-- Of the tokens that a list begins with, those up to the first that cannot follow begin a text. -/
theorem Viable.iff_prefix {us vs ts : List Token} {t : Token} (h : Viable us)
    (hnot : ¬ Viable (us ++ [t])) (hvs : vs <+: us ++ t :: ts) : Viable vs ↔ vs <+: us := by
  refine ⟨fun hviable ↦ ?_, h.of_prefix⟩
  have htaken : us ++ [t] <+: us ++ t :: ts := ⟨ts, by simp⟩
  rcases List.prefix_or_prefix_of_prefix hvs htaken with hvs | hvs
  · rcases List.prefix_concat_iff.mp hvs with rfl | hvs
    · exact absurd hviable hnot
    · exact hvs
  · exact absurd (hviable.of_prefix hvs) hnot

theorem Declarations.viable {us : List Token} (h : Declarations us) : Viable us :=
  ⟨us, ⟨endOfText, "", .nil, 0⟩, h, rfl, List.prefix_append us _⟩

theorem Declarations.viable_unclosed {us vs : List Token} (hus : Declarations us)
    (hvs : Unclosed vs) : Viable (us ++ vs) := by
  have hclosed : Declarations (us ++ vs ++ [⟨semicolon, ";", .nil, 0⟩]) := hus.concat hvs rfl
  exact hclosed.viable.of_append

/-! ### What may stand behind tokens -/

/-- The kinds of token right behind which a phrase of `x` may begin. -/
def Nonterminal.heralds : Nonterminal → List Token.Kind
  | .expression => [kwPrint, equal, leftParen]
  | .assignment => [kwPrint, equal, leftParen]
  | _ => kwPrint :: equal :: leftParen :: bang :: Tier.equality.extensions

/-- The tokens are whole declarations, or a phrase of `x` may begin right behind the last one. -/
def Opens (x : Nonterminal) (us : List Token) : Prop :=
  Declarations us ∨ ∃ vs t, us = vs ++ [t] ∧ t.kind ∈ x.heralds

theorem Opens.mono {x y : Nonterminal} {us : List Token} (h : Opens x us)
    (hxy : x.heralds ⊆ y.heralds) : Opens y us :=
  h.imp id fun ⟨vs, t, hus, ht⟩ ↦ ⟨vs, t, hus, hxy ht⟩

theorem opens_concat {x : Nonterminal} (us : List Token) {t : Token} (ht : t.kind ∈ x.heralds) :
    Opens x (us ++ [t]) :=
  .inr ⟨us, t, rfl, ht⟩

/-- Behind the tokens a phrase of `x` may begin, and with any one they still begin a text. -/
structure Expects (x : Nonterminal) (us : List Token) : Prop where
  opens : Opens x us
  viable : ∀ vs, Loose x vs → Viable (us ++ vs)

namespace Expects

variable {us : List Token}

theorem assignment (h : Expects .expression us) : Expects .assignment us where
  opens := h.opens
  viable := fun vs hvs ↦ h.viable vs (.expression hvs)

theorem equality (h : Expects .assignment us) : Expects (.tier .equality) us where
  opens := h.opens.mono (by decide)
  viable := fun vs hvs ↦ h.viable vs (.equality hvs)

theorem operand {t : Tier} (h : Expects (.tier t) us) : Expects t.operand us where
  opens := h.opens.mono (by cases t <;> decide)
  viable := fun vs hvs ↦ h.viable vs (.operand hvs)

theorem value (h : Expects .assignment us) {vs : List Token} (hvs : Loose (.tier .equality) vs)
    {sign : Token} (hsign : sign.kind = equal) : Expects .assignment (us ++ vs ++ [sign]) where
  opens := opens_concat _ (by rw [hsign]; decide)
  viable := by
    intro ws hws
    simpa using h.viable _ (.assign hvs hsign hws)

theorem right {t : Tier} (h : Expects (.tier t) us) {vs : List Token} (hvs : Loose (.tier t) vs)
    {operator : Token} (hoperator : operator.kind ∈ t.operators) :
    Expects t.operand (us ++ vs ++ [operator]) where
  opens := by
    refine opens_concat _ ?_
    revert hoperator
    cases t <;> cases operator.kind <;> decide
  viable := by
    intro ws hws
    simpa using h.viable _ (.binary hvs hoperator hws)

theorem unary (h : Expects .unary us) {operator : Token}
    (hoperator : operator.kind = bang ∨ operator.kind = minus) :
    Expects .unary (us ++ [operator]) where
  opens := opens_concat _ (by rcases hoperator with h | h <;> rw [h] <;> decide)
  viable := by
    intro ws hws
    simpa using h.viable _ (.unary hoperator hws)

theorem grouping (h : Expects .unary us) {opening : Token} (hopening : opening.kind = leftParen) :
    Expects .expression (us ++ [opening]) where
  opens := opens_concat _ (by rw [hopening]; decide)
  viable := by
    intro ws hws
    have hprimary : Loose .primary (opening :: ws ++ [⟨rightParen, ")", .nil, 0⟩]) :=
      .grouping hopening hws rfl
    have hviable := h.viable _ (.primary hprimary)
    rw [← List.append_assoc] at hviable
    simpa using hviable.of_append

end Expects

/-! ### What is required behind tokens -/

/-- What the grammar requires behind the tokens: the fault of a refusal there, the lexeme that it
names, and the kinds of token that would do. -/
inductive Required : List Token → Diagnostic.GrammarFault → Option String → List Token.Kind → Prop
  /-- An operand, or a new statement that begins with one. -/
  | operand {us : List Token} (h : Opens .unary us) :
      Required us .expectedExpression none (bang :: minus :: operandStarts)
  | name {us : List Token} {keyword : Token} (h : Declarations us)
      (hkeyword : keyword.kind = kwVar) :
      Required (us ++ [keyword]) .expectedIdentifier none [identifier]
  | mark {us vs : List Token} (h : Declarations us) (hvs : Unclosed vs) :
      Required (us ++ vs) .expectedToken (some ";") [semicolon]
  | closing {us vs : List Token} {opening : Token} (h : Opens .unary us)
      (hopening : opening.kind = leftParen) (hvs : Loose .expression vs) :
      Required (us ++ opening :: vs) .expectedToken (some ")") [rightParen]

/-- A refusal behind the tokens `us` and before the tokens `ts`: at the next token where something
else is required, or at the sign of an assignment that was just read and whose target is no name. -/
inductive Refusal : List Token → List Token → Diagnostic → Prop
  | misfit {us ts : List Token} {t : Token} {fault : Diagnostic.GrammarFault} {wording : String}
      {expected : Option String} {kinds : List Token.Kind} (h : Required us fault expected kinds)
      (hkinds : ∀ u : Token, u.kind ∈ kinds → Viable (us ++ [u])) :
      Refusal us (t :: ts) (.atToken (.grammar fault wording expected) t)
  | target {us vs ws ts : List Token} {sign : Token} {wording : String}
      {expected : Option String} {target value : Expr} (h : Opens .assignment us)
      (ht : Derives (.tier .equality) vs target) (hname : ∀ name, target ≠ .reference name)
      (hsign : sign.kind = equal) (hvalue : Derives .assignment ws value)
      (hviable : Viable (us ++ vs ++ sign :: ws)) :
      Refusal (us ++ vs ++ sign :: ws) ts
        (.atToken (.grammar .invalidAssignmentTarget wording expected) sign)

/-- A phrase that begins with the token. -/
theorem exists_loose_unary {t : Token} (ht : t.kind ∈ bang :: minus :: operandStarts) :
    ∃ ts, Loose .unary (t :: ts) := by
  have hone {u : Token} (hu : u.kind = kwNil) : Loose .unary [u] := .primary (.nil hu)
  let word : Token := ⟨kwNil, "nil", .nil, 0⟩
  simp only [operandStarts, List.mem_cons, List.not_mem_nil, or_false] at ht
  rcases ht with h | h | h | h | h | h | h | h | h
  · exact ⟨[word], .unary (.inl h) (hone rfl)⟩
  · exact ⟨[word], .unary (.inr h) (hone rfl)⟩
  · exact ⟨[], .primary (.true h)⟩
  · exact ⟨[], .primary (.false h)⟩
  · exact ⟨[], .primary (.nil h)⟩
  · exact ⟨[], .primary (.number h)⟩
  · exact ⟨[], .primary (.string h)⟩
  · exact ⟨[], .primary (.reference h)⟩
  · have hfactor : Loose (.tier .factor) [word] := .operand (hone rfl)
    have hequality : Loose (.tier .equality) [word] := .operand (.operand (.operand hfactor))
    have hgrouping : Loose .primary (t :: [word] ++ [⟨rightParen, ")", .nil, 0⟩]) :=
      .grouping h (.expression (.equality hequality)) rfl
    exact ⟨_, .primary hgrouping⟩

theorem Expects.viable_concat {us : List Token} (h : Expects .unary us) {t : Token}
    (ht : t.kind ∈ bang :: minus :: operandStarts) : Viable (us ++ [t]) := by
  obtain ⟨ts, hts⟩ := exists_loose_unary ht
  have hviable := h.viable _ hts
  rw [List.append_cons] at hviable
  exact hviable.of_append

theorem Required.exists_kind {us : List Token} {fault : Diagnostic.GrammarFault}
    {expected : Option String} {kinds : List Token.Kind} (h : Required us fault expected kinds) :
    ∃ kind, kind ∈ kinds := by
  cases h <;> exact ⟨_, List.mem_cons_self⟩

/-- What is required is never another target of an assignment. -/
theorem Required.ne_invalid {us : List Token} {fault : Diagnostic.GrammarFault}
    {expected expected' : Option String} {kinds : List Token.Kind} {wording wording' : String}
    {t t' : Token} (h : Required us fault expected kinds) :
    Diagnostic.atToken (.grammar fault wording expected) t ≠
      .atToken (.grammar .invalidAssignmentTarget wording' expected') t' := by
  intro heq
  have hcause : Diagnostic.Cause.grammar fault wording expected =
      .grammar .invalidAssignmentTarget wording' expected' := congrArg Diagnostic.cause heq
  injection hcause with hfault
  cases h <;> cases hfault

theorem Refusal.viable {us ts : List Token} {d : Diagnostic} (h : Refusal us ts d) : Viable us := by
  cases h with
  | misfit h hkinds =>
    obtain ⟨kind, hkind⟩ := h.exists_kind
    exact (hkinds ⟨kind, "", .nil, 0⟩ hkind).of_append
  | target _ _ _ _ _ hviable => exact hviable

end Grammar

open Grammar

namespace Parser

variable {α β : Type}

/-- Where the parser refuses at most `n` tokens behind `us`, the refusal is one behind `us` and the
tokens that it took. -/
def Blames (n : Nat) (p : Parser α) (us : List Token) : Prop :=
  ∀ rest d after, rest.length ≤ n → p.run ⟨us.reverse, rest⟩ = .error (.diagnostic d) after →
    Refusal after.before.reverse after.rest d

namespace Blames

variable {us : List Token}

theorem mono {k n : Nat} {p : Parser α} (h : Blames n p us) (hk : k ≤ n) : Blames k p us :=
  fun rest d after hrest ↦ h rest d after (Nat.le_trans hrest hk)

theorem pure (n : Nat) (a : α) : Blames n (Pure.pure a : Parser α) us :=
  fun _ _ _ _ hrun ↦ by cases hrun

theorem of_starves {p : Parser α} (h : Starves p) : Blames 0 p us := by
  intro rest d after hrest hrun
  obtain rfl : rest = [] := List.length_eq_zero_iff.mp (Nat.le_zero.mp hrest)
  rw [h us.reverse] at hrun
  cases hrun

theorem bind_of_ok {n : Nat} {p : Parser α} {f : α → Parser β} (h : Blames n p us)
    (hf : ∀ rest a after, rest.length ≤ n → p.run ⟨us.reverse, rest⟩ = .ok a after →
      ∀ d last, (f a).run after = .error (.diagnostic d) last →
        Refusal last.before.reverse last.rest d) : Blames n (p >>= f) us := by
  intro rest d last hrest hrun
  rw [EStateM.run_bind] at hrun
  cases hresult : p.run ⟨us.reverse, rest⟩ with
  | error g after =>
    rw [hresult] at hrun
    obtain ⟨rfl, rfl⟩ : g = .diagnostic d ∧ after = last := by simpa using hrun
    exact h rest d after hrest hresult
  | ok a after =>
    rw [hresult] at hrun
    exact hf rest a after hrest hresult d last hrun

theorem bind_return {n : Nat} {p : Parser α} (h : Blames n p us) (f : α → β) :
    Blames n (do return f (← p)) us :=
  h.bind_of_ok fun _ _ _ _ _ _ _ hrun ↦ by cases hrun

/-- What follows `p` is run behind the tokens that `p` took, on `m` of those that it left. -/
theorem bind_of_length_le {m n : Nat} {p : Parser α} {f : α → Parser β}
    {C : List Token → α → Prop} (h : Blames n p us) (hp : Parses n p C)
    (hlength : ∀ feed a after, feed.rest.length ≤ n → p.run feed = .ok a after →
      after.rest.length ≤ m)
    (hf : ∀ vs a, C vs a → Blames m (f a) (us ++ vs)) : Blames n (p >>= f) us := by
  refine h.bind_of_ok fun rest a after hrest hresult d last hrun ↦ ?_
  have hle := hlength _ a after hrest hresult
  have hC := hp us.reverse rest hrest
  rw [hresult] at hC
  obtain ⟨before', rest'⟩ := after
  obtain ⟨vs, rfl, rfl, -, hC⟩ := hC
  refine hf vs a hC rest' d last hle ?_
  rw [List.reverse_append]
  exact hrun

theorem bind {n : Nat} {p : Parser α} {f : α → Parser β} {C : List Token → α → Prop}
    (h : Blames n p us) (hp : Parses n p C)
    (hf : ∀ vs a, C vs a → Blames n (f a) (us ++ vs)) : Blames n (p >>= f) us := by
  refine h.bind_of_length_le hp (fun feed a after hfeed hrun ↦ ?_) hf
  have hparses := hp feed.before feed.rest hfeed
  rw [hrun] at hparses
  obtain ⟨vs, heq, -⟩ := hparses
  simp only [heq, List.length_append] at hfeed
  omega

/-- Behind the next token, which was taken. -/
theorem after {n : Nat} {p : Parser α} {t : Token} (h : Blames n p (us ++ [t])) {ts : List Token}
    {d : Diagnostic} {after : Feed} (hts : ts.length ≤ n)
    (hrun : p.run ⟨t :: us.reverse, ts⟩ = .error (.diagnostic d) after) :
    Refusal after.before.reverse after.rest d := by
  refine h ts d after hts ?_
  rw [List.reverse_append]
  exact hrun

theorem accept? {n : Nat} {kinds : List Token.Kind} (hk : kinds ≠ []) {f : Option Token → Parser α}
    (hsome : ∀ t, t.kind ∈ kinds → Blames n (f (some t)) (us ++ [t]))
    (hnone : Blames (n + 1) (f none) us) : Blames (n + 1) (Parser.accept? kinds >>= f) us := by
  intro rest d after hrest hrun
  cases rest with
  | nil =>
    rw [(starves_accept? hk).bind f us.reverse] at hrun
    cases hrun
  | cons t ts =>
    rw [EStateM.run_bind, run_accept?_cons] at hrun
    by_cases ht : t.kind ≠ endOfText ∧ t.kind ∈ kinds
    · rw [if_pos ht] at hrun
      exact (hsome t ht.2).after (Nat.le_of_succ_le_succ hrest) hrun
    · rw [if_neg ht] at hrun
      exact hnone (t :: ts) d after hrest hrun

theorem require {kind : Token.Kind} {fault : Diagnostic.GrammarFault}
    (h : Required us fault (if fault = .expectedToken then requiredLexeme? kind else none) [kind])
    (hviable : ∀ t : Token, t.kind = kind → Viable (us ++ [t])) (n : Nat) (wording : String) :
    Blames n (Parser.require kind wording fault) us := by
  intro rest d after hrest hrun
  cases rest with
  | nil =>
    rw [starves_require kind wording fault us.reverse] at hrun
    cases hrun
  | cons t ts =>
    rw [run_require_cons] at hrun
    by_cases ht : t.kind ≠ endOfText ∧ t.kind = kind
    · rw [if_pos ht] at hrun
      cases hrun
    · rw [if_neg ht] at hrun
      cases hrun
      rw [List.reverse_reverse]
      exact .misfit h fun u hu ↦ hviable u (List.mem_singleton.mp hu)

end Blames

theorem Blames.discard {n : Nat} {p : Parser α} {us : List Token} (h : Blames n p us) :
    Blames n (discard p) us := by
  rw [discard_eq_bind]
  exact h.bind_return fun _ ↦ ()

/-! ### Expressions -/

theorem blames_groupingOver {n : Nat} {us : List Token} {opening : Token}
    (hopening : opening.kind = leftParen) (hus : Expects .unary us)
    (h : Blames n expression (us ++ [opening])) :
    Blames n (groupingOver expression) (us ++ [opening]) := by
  refine h.bind (parses_expression n) fun vs e he ↦ ?_
  have hrequired : Required (us ++ [opening] ++ vs) .expectedToken (some ")") [rightParen] := by
    simpa using Required.closing hus.opens hopening he.loose
  have hclosing : Blames n (require .rightParen "Expect ')' after expression.")
      (us ++ [opening] ++ vs) := by
    refine .require hrequired (fun closing hclosing ↦ ?_) n _
    simpa using hus.viable _ (.primary (.grouping hopening he.loose hclosing))
  exact hclosing.discard.bind_return _

theorem blames_primary {n : Nat} {us : List Token} (hus : Expects .unary us)
    (h : ∀ k < n, ∀ us, Expects .expression us → Blames k expression us) :
    Blames n primary us := by
  rw [primary_eq]
  intro rest d after hrest hrun
  cases rest with
  | nil =>
    rw [starves_primaryOver _ us.reverse] at hrun
    cases hrun
  | cons t ts =>
    rcases primaryOver_cases t with ⟨e, he, hprimary⟩ | ⟨ht, hprimary⟩ | hprimary
    · rw [hprimary] at hrun
      cases hrun
    · rw [hprimary] at hrun
      have hinner := h ts.length hrest _ (hus.grouping ht)
      exact (blames_groupingOver ht hus hinner).after (Nat.le_refl _) hrun
    · rw [hprimary] at hrun
      cases hrun
      rw [List.reverse_reverse]
      exact .misfit (.operand hus.opens) fun u hu ↦ hus.viable_concat hu

theorem blames_unary {n : Nat} {us : List Token} (hus : Expects .unary us)
    (h : ∀ k < n, ∀ us, Expects .expression us → Blames k expression us) :
    Blames n unary us := by
  induction n generalizing us with
  | zero => exact .of_starves (starves_reader .unary)
  | succ n ih =>
    rw [unary_eq]
    refine .accept? (by simp) (fun operator hoperator ↦ ?_) (blames_primary hus h)
    have hbelow : ∀ k < n, ∀ us, Expects .expression us → Blames k expression us :=
      fun k hk ↦ h k (Nat.lt_succ_of_lt hk)
    exact (ih (hus.unary (by simpa using hoperator)) hbelow).bind_return _

/-- The loop of a tier, behind a phrase of the tier. -/
theorem blames_chain (t : Tier) {n : Nat} {us vs : List Token} (hus : Expects (.tier t) us)
    (hvs : Loose (.tier t) vs) (hparses : Parses n (reader t.operand) (Derives t.operand))
    (h : ∀ us, Expects t.operand us → Blames n (reader t.operand) us) (left : Expr) :
    Blames n (chain t left) (us ++ vs) := by
  induction n generalizing vs left with
  | zero => exact .of_starves (starves_chain t left)
  | succ n ih =>
    have hle := Nat.le_succ n
    rw [chain_eq]
    refine .accept? t.operators_ne_nil (fun operator hoperator ↦ ?_) (.pure _ left)
    have hoperand := (h _ (hus.right hvs hoperator)).mono hle
    refine hoperand.bind (hparses.mono hle) fun ws right hright ↦ ?_
    have hws : Loose (.tier t) (vs ++ operator :: ws) := .binary hvs hoperator hright.loose
    have hchain := ih hws (hparses.mono hle) (fun us hus ↦ (h us hus).mono hle)
      (.binary left operator right)
    simpa using hchain

theorem blames_tier (t : Tier) {n : Nat} {us : List Token} (hus : Expects (.tier t) us)
    (hparses : Parses n (reader t.operand) (Derives t.operand))
    (h : ∀ us, Expects t.operand us → Blames n (reader t.operand) us) :
    Blames n (reader (.tier t)) us := by
  rw [tier_eq]
  refine (h us hus.operand).bind hparses fun vs left hleft ↦ ?_
  exact blames_chain t hus (.operand hleft.loose) hparses h left

theorem blames_equality {n : Nat} {us : List Token} (hus : Expects (.tier .equality) us)
    (h : ∀ k < n, ∀ us, Expects .expression us → Blames k expression us) :
    Blames n equality us := by
  have hunary : Parses n (reader .unary) (Derives .unary) :=
    parses_unary fun k _ ↦ parses_expression k
  have hfactor := parses_tier .factor hunary
  have hterm := parses_tier .term hfactor
  have hcomparison := parses_tier .comparison hterm
  refine blames_tier .equality hus hcomparison fun us hus ↦ ?_
  refine blames_tier .comparison hus hterm fun us hus ↦ ?_
  refine blames_tier .term hus hfactor fun us hus ↦ ?_
  exact blames_tier .factor hus hunary fun us hus ↦ blames_unary hus h

theorem blames_assignTo {n : Nat} {us vs ws : List Token} (hus : Expects .assignment us)
    {target value : Expr} (ht : Derives (.tier .equality) vs target) {sign : Token}
    (hsign : sign.kind = equal) (hvalue : Derives .assignment ws value) :
    Blames n (assignTo target sign value) (us ++ vs ++ sign :: ws) := by
  intro rest d after _ hrun
  have hviable : Viable (us ++ vs ++ sign :: ws) := by
    simpa using hus.viable _ (.assign ht.loose hsign hvalue.loose)
  cases target with
  | reference name => cases hrun
  | _ =>
    cases hrun
    rw [List.reverse_reverse]
    exact .target hus.opens ht (by simp) hsign hvalue hviable

theorem blames_assignment (n : Nat) {us : List Token} (hus : Expects .assignment us) :
    Blames n expression us := by
  induction n using Nat.strongRecOn generalizing us with
  | ind n ih =>
    have hbelow : ∀ k < n, ∀ us, Expects .expression us → Blames k expression us :=
      fun k hk us hus ↦ ih k hk hus.assignment
    have hparses : Parses n equality (Derives (.tier .equality)) :=
      parses_equality fun k _ ↦ parses_expression k
    rw [expression_eq]
    refine (blames_equality hus.equality hbelow).bind hparses fun vs target ht ↦ ?_
    cases n with
    | zero => exact .of_starves ((starves_accept? (by simp)).bind _)
    | succ n =>
      refine .accept? (by simp) (fun sign hsign ↦ ?_) (.pure _ target)
      have hsign : sign.kind = equal := by simpa using hsign
      have hvalue := ih n (Nat.lt_succ_self n) (hus.value ht.loose hsign)
      have hassignment : Parses n expression (Derives .assignment) :=
        (parses_expression n).imp fun ws value h ↦ by cases h with | expression h => exact h
      refine hvalue.bind hassignment fun ws value hvalue ↦ ?_
      simpa using blames_assignTo hus ht hsign hvalue

theorem blames_expression (n : Nat) {us : List Token} (hus : Expects .expression us) :
    Blames n expression us :=
  blames_assignment n hus.assignment

/-! ### Statements -/

theorem blames_closed (n : Nat) {us vs : List Token} (hus : Declarations us) (hvs : Unclosed vs)
    (s : Stmt) (wording : String) : Blames n (closed s wording) (us ++ vs) := by
  have hmark : Blames n (require .semicolon wording) (us ++ vs) :=
    .require (.mark hus hvs) (fun mark hmark ↦ (hus.concat hvs hmark).viable) n wording
  exact hmark.discard.bind_return _

/-- An expression, with the tokens `vs` of its statement before it, and the mark behind it. -/
theorem blames_statement (n : Nat) {us vs : List Token} (hus : Declarations us)
    (hopens : Opens .expression (us ++ vs))
    (hvs : ∀ ws, Loose .expression ws → Unclosed (vs ++ ws)) (f : Expr → Stmt) (wording : String) :
    Blames n (do closed (f (← expression)) wording) (us ++ vs) := by
  have hviable (ws : List Token) (hws : Loose .expression ws) : Viable (us ++ vs ++ ws) := by
    rw [List.append_assoc]
    exact hus.viable_unclosed (hvs ws hws)
  refine (blames_expression n ⟨hopens, hviable⟩).bind (parses_expression n) fun ws e he ↦ ?_
  rw [List.append_assoc]
  exact blames_closed n hus (hvs ws he.loose) (f e) wording

theorem blames_varDeclaration (n : Nat) {us : List Token} (hus : Declarations us)
    {keyword : Token} (hkeyword : keyword.kind = kwVar) :
    Blames n varDeclaration (us ++ [keyword]) := by
  rw [varDeclaration_eq]
  have hrequire : Blames n (require identifier "Expect variable name." .expectedIdentifier)
      (us ++ [keyword]) := by
    refine .require (.name hus hkeyword) (fun name hname ↦ ?_) n _
    simpa using hus.viable_unclosed (.var hkeyword hname)
  refine hrequire.bind (.require n _ _ _) ?_
  rintro - name ⟨rfl, hname⟩
  rw [List.append_assoc]
  cases n with
  | zero => exact .of_starves ((starves_accept? (by simp)).bind _)
  | succ n =>
    refine .accept? (by simp) (fun sign hsign ↦ ?_)
      (blames_closed _ hus (.var hkeyword hname) _ _)
    have hsign : sign.kind = equal := by simpa using hsign
    rw [List.append_assoc]
    refine blames_statement n hus ?_ (fun ws hws ↦ ?_) (fun e ↦ .var name (some e)) _
    · rw [← List.append_assoc]
      exact opens_concat _ (by rw [hsign]; decide)
    · exact .varInitial hkeyword hname hsign hws

theorem blames_declaration (n : Nat) {us : List Token} (hus : Declarations us) :
    Blames n declaration us := by
  cases n with
  | zero => exact .of_starves ((starves_accept? (by simp)).bind _)
  | succ n =>
    refine .accept? (by simp) (fun keyword hkeyword ↦ ?_) (.accept? (by simp) ?_ ?_)
    · exact blames_varDeclaration n hus (by simpa using hkeyword)
    · intro keyword hkeyword
      have hkeyword : keyword.kind = kwPrint := by simpa using hkeyword
      have hopens : Opens .expression (us ++ [keyword]) :=
        opens_concat us (by rw [hkeyword]; decide)
      exact blames_statement n hus hopens (fun ws hws ↦ .print hkeyword hws) .print _
    · have hopens : Opens .expression (us ++ []) := by simpa using .inl hus
      have hstatement := blames_statement (n + 1) hus hopens (fun ws hws ↦ .expression hws)
        .expression "Expect ';' after value."
      rwa [List.append_nil] at hstatement

theorem blames_program (n : Nat) {us : List Token} (hus : Declarations us) :
    Blames n program us := by
  induction n generalizing us with
  | zero => exact .of_starves starves_program
  | succ n ih =>
    have hbehind (vs : List Token) (s : Stmt) (hs : Declaration vs s) :
        Blames n (do return s :: (← program)) (us ++ vs) :=
      (ih (hus.append hs.declarations)).bind_return _
    have hprogram : Blames (n + 1) (do return (← declaration) :: (← program)) us := by
      refine (blames_declaration (n + 1) hus).bind_of_length_le (parses_declaration _)
        (fun feed s after hfeed hrun ↦ ?_) hbehind
      have hshorter := consumes_declaration feed s after hrun
      omega
    intro rest d after hrest hrun
    cases rest with
    | nil =>
      rw [starves_program us.reverse] at hrun
      cases hrun
    | cons t ts =>
      by_cases ht : t.kind = endOfText
      · rw [run_program_of_eq ht] at hrun
        cases hrun
      · rw [run_program_of_ne ht] at hrun
        exact hprogram (t :: ts) d after hrest hrun

/-! ### The token that is refused -/

theorem exists_taken {tokens ts : List Token} {d : Diagnostic} {before : List Token}
    (hrun : program.run (.ofTokens tokens) = .error (.diagnostic d) ⟨before, ts⟩) :
    tokens = before.reverse ++ ts ∧ ∀ t rest rest', ts = t :: rest →
      program.run (.ofTokens (before.reverse ++ t :: rest')) =
        .error (.diagnostic d) ⟨before, t :: rest'⟩ := by
  have hsettles := looksAhead_program [] tokens
  rw [Feed.ofTokens] at hrun
  rw [hrun] at hsettles
  obtain ⟨us, heq, hbefore, hr⟩ := hsettles
  obtain rfl : us = before.reverse := by simpa using (congrArg List.reverse hbefore).symm
  exact ⟨heq, hr⟩

/-- No text begins with the tokens that were taken and the next one, if that is refused. -/
theorem not_viable_concat {tokens before ts : List Token} {d : Diagnostic} {t : Token}
    (hrun : program.run (.ofTokens tokens) = .error (.diagnostic d) ⟨before, t :: ts⟩)
    (hd : ∀ wording expected sign,
      d ≠ .atToken (.grammar .invalidAssignmentTarget wording expected) sign) :
    ¬ Viable (before.reverse ++ [t]) := by
  rintro ⟨ds, final, hds, hfinal, rest, hrest⟩
  have hsame := (exists_taken hrun).2 t ts rest rfl
  rw [List.append_cons, hrest] at hsame
  rcases declarations_cases hds with ⟨ss, hss⟩ | hmisassigns
  · have hparse := parse_of_program hss hfinal
    rw [parse, hsame] at hparse
    cases hparse
  · obtain ⟨wording, expected, sign, after, hmisassigns⟩ := hmisassigns [] [final]
    rw [Feed.ofTokens, hmisassigns] at hsame
    injection hsame with hfailure
    injection hfailure with hdiagnostic
    exact hd wording expected sign hdiagnostic.symm

end Parser

theorem Grammar.Derives.unique {x : Nonterminal} {us : List Token} {e e' : Expr}
    (h : Derives x us e) (h' : Derives x us e') : e = e' := by
  have hhalts : Halts x [⟨semicolon, ";", .nil, 0⟩] := by
    refine ⟨_, [], rfl, ?_⟩
    cases x with
    | tier t => cases t <;> decide
    | _ => decide
  have hrun := (Parser.completes_of_derives h).accepts hhalts []
  rw [(Parser.completes_of_derives h').accepts hhalts []] at hrun
  injection hrun with he
  exact he.symm

/-- An equality that is a single name is a reference to it. -/
theorem Grammar.Derives.eq_reference {name : Token} {e : Expr} (hname : name.kind = identifier)
    (h : Derives (.tier .equality) [name] e) : e = .reference name := by
  have hprimary : Derives .primary [name] (.reference name) := .reference hname
  exact h.unique (.operand (.operand (.operand (.operand (.primary hprimary)))))

/-- Where the parser refuses tokens, those that it took begin a text. Either the diagnostic is at
the token after them, something else is required there, and of all that the tokens begin with just
what was taken begins a text; or the tokens that were taken end in an assignment, the diagnostic is
at its sign, and its target is a whole equality that is no name. -/
theorem parse_refuses (tokens : List Token) (d : Diagnostic)
    (h : parse tokens = .error (.diagnostic d)) :
    ∃ us ts, Parser.program.run (.ofTokens tokens) = .error (.diagnostic d) ⟨us.reverse, ts⟩ ∧
      tokens = us ++ ts ∧ Viable us ∧
      ((∃ t rest fault wording expected kinds, ts = t :: rest ∧
          d = .atToken (.grammar fault wording expected) t ∧ Required us fault expected kinds ∧
          (∀ u : Token, u.kind ∈ kinds → Viable (us ++ [u])) ∧
          ∀ vs, vs <+: tokens → (Viable vs ↔ vs <+: us)) ∨
        ∃ front target sign value wording expected, us = front ++ target ++ sign :: value ∧
          d = .atToken (.grammar .invalidAssignmentTarget wording expected) sign ∧
          sign.kind = equal ∧ Opens .assignment front ∧
          (∃ e, Derives (.tier .equality) target e) ∧
          (∀ name : Token, name.kind = identifier → target ≠ [name]) ∧
          ∃ e, Derives .assignment value e) := by
  rw [parse] at h
  cases hrun : Parser.program.run (.ofTokens tokens) with
  | ok program after =>
    rw [hrun] at h
    cases h
  | error f after =>
    rw [hrun] at h
    obtain rfl : f = .diagnostic d := Except.error.inj h
    obtain ⟨before, ts⟩ := after
    obtain ⟨us, rfl⟩ : ∃ us, before = List.reverse us := ⟨before.reverse, by simp⟩
    have htokens := (Parser.exists_taken hrun).1
    have hrefusal : Refusal us.reverse.reverse ts d :=
      Parser.blames_program tokens.length .nil tokens d _ (Nat.le_refl _) hrun
    rw [List.reverse_reverse] at htokens hrefusal
    have hviable := hrefusal.viable
    refine ⟨us, ts, rfl, htokens, hviable, ?_⟩
    cases hrefusal with
    | @misfit _ rest t fault wording expected kinds hrequired hkinds =>
      have hnot : ¬ Viable (us ++ [t]) := by
        rw [← List.reverse_reverse us]
        exact Parser.not_viable_concat hrun fun _ _ _ ↦ hrequired.ne_invalid
      refine .inl ⟨t, rest, fault, wording, expected, kinds, rfl, rfl, hrequired, hkinds, ?_⟩
      rw [htokens]
      exact fun vs ↦ hviable.iff_prefix hnot
    | @target front vs ws _ sign wording expected _ _ hopens ht hname hsign hvalue _ =>
      refine .inr ⟨front, vs, sign, ws, wording, expected, rfl, rfl, hsign, hopens, ⟨_, ht⟩, ?_,
        ⟨_, hvalue⟩⟩
      rintro name hkind rfl
      exact hname name (ht.eq_reference hkind)

/-- The tokens of `a + b = c +`. -/
def openSum : List Token :=
  [⟨identifier, "a", .nil, 1⟩, ⟨plus, "+", .nil, 1⟩, ⟨identifier, "b", .nil, 1⟩,
    ⟨equal, "=", .nil, 1⟩, ⟨identifier, "c", .nil, 1⟩, ⟨plus, "+", .nil, 1⟩]

/-- A mark behind `a + b = c +` is refused, since an operand is required there. That the target of
the assignment is no name does not come up. -/
theorem parse_refuses_mark_behind_openSum :
    parse (openSum ++ [⟨semicolon, ";", .nil, 1⟩, ⟨endOfText, "", .nil, 1⟩]) =
      .error (.diagnostic (.atToken (.grammar .expectedExpression "Expect expression." none)
        ⟨semicolon, ";", .nil, 1⟩)) ∧
    Viable openSum ∧ ¬ Viable (openSum ++ [⟨semicolon, ";", .nil, 1⟩]) := by
  have hparse : parse (openSum ++ [⟨semicolon, ";", .nil, 1⟩, ⟨endOfText, "", .nil, 1⟩]) =
      .error (.diagnostic (.atToken (.grammar .expectedExpression "Expect expression." none)
        ⟨semicolon, ";", .nil, 1⟩)) := rfl
  obtain ⟨us, ts, hrun, -, hviable, hrefusal⟩ := parse_refuses _ _ hparse
  have hstate : (⟨us.reverse, ts⟩ : Feed) =
      ⟨openSum.reverse, [⟨semicolon, ";", .nil, 1⟩, ⟨endOfText, "", .nil, 1⟩]⟩ := by
    injection hrun with _ hafter
    exact hafter.symm
  injection hstate with hus hts
  obtain rfl : us = openSum := List.reverse_inj.mp hus
  refine ⟨hparse, hviable, fun hmark ↦ ?_⟩
  rcases hrefusal with ⟨_, _, _, _, _, _, _, _, _, _, honly⟩ | ⟨_, _, _, _, _, _, _, hd, _⟩
  · have hprefix := (honly _ ⟨[⟨endOfText, "", .nil, 1⟩], by simp⟩).mp hmark
    have hlength := hprefix.length_le
    rw [List.length_append, List.length_singleton] at hlength
    omega
  · have hcause := congrArg Diagnostic.cause hd
    injection hcause with hfault
    cases hfault

end LoxLang
