import LoxLang.Proofs.Parsing.Equations

/-!
The parser is sound: what it takes from a list of tokens is a phrase that spells its result.

`Parses` says so for one parser, with what becomes of tokens that it refuses, and passes through
`>>=`. The parser of an expression is sound on fewer tokens wherever it is called again, so the
proof goes by the number of tokens (`parses_expression`).
-/

set_option autoImplicit false
set_option relaxedAutoImplicit false

namespace LoxLang

open Token.Kind Grammar

/-- A phrase that spells a name is the name alone. -/
theorem Grammar.Derives.of_reference {x : Nonterminal} {ts : List Token} {name : Token}
    (h : Derives x ts (.reference name)) : ts = [name] ∧ name.kind = identifier := by
  generalize he : Expr.reference name = e at h
  induction h with
  | expression _ ih | equality _ ih | operand _ ih | primary _ ih => exact ih he
  | reference h =>
    cases he
    exact ⟨rfl, h⟩
  | _ => cases he

namespace Parser

variable {α β : Type}

/-- A failure that the tokens account for: a diagnostic at one of them, or the want of a token where
none of them ends the text. -/
def Refused (tokens : List Token) (f : Failure) : Prop :=
  (∃ t ∈ tokens, ∃ fault wording expected,
    f = .diagnostic (.atToken (.grammar fault wording expected) t)) ∨
  Unended tokens ∧ f = .mishap .tokensExhausted

theorem Refused.append {us vs : List Token} {f : Failure} (hus : Unended us) (h : Refused vs f) :
    Refused (us ++ vs) f := by
  rcases h with ⟨t, ht, hf⟩ | ⟨hvs, hf⟩
  · exact .inl ⟨t, List.mem_append_right us ht, hf⟩
  · exact .inr ⟨unended_append.mpr ⟨hus, hvs⟩, hf⟩

theorem Refused.cons {t : Token} {ts : List Token} {f : Failure} (ht : t.kind ≠ endOfText)
    (h : Refused ts f) : Refused (t :: ts) f :=
  append (unended_cons.mpr ⟨ht, unended_nil⟩) h

/-- What the parser makes of at most `n` tokens: it takes a phrase of `D` from their front, or it
refuses them. -/
def Parses (n : Nat) (p : Parser α) (D : List Token → α → Prop) : Prop :=
  ∀ before rest, rest.length ≤ n →
    match p.run ⟨before, rest⟩ with
    | .ok a after => ∃ us, rest = us ++ after.rest ∧ after.before = us.reverse ++ before ∧
        Unended us ∧ D us a
    | .error f _ => Refused rest f

namespace Parses

theorem mono {k n : Nat} {p : Parser α} {D : List Token → α → Prop} (h : Parses n p D)
    (hk : k ≤ n) : Parses k p D :=
  fun before rest hrest ↦ h before rest (Nat.le_trans hrest hk)

theorem imp {n : Nat} {p : Parser α} {D E : List Token → α → Prop} (h : Parses n p D)
    (hDE : ∀ us a, D us a → E us a) : Parses n p E := by
  intro before rest hrest
  have hp := h before rest hrest
  cases hrun : p.run ⟨before, rest⟩ with
  | error f after => simpa only [hrun] using hp
  | ok a after =>
    rw [hrun] at hp
    obtain ⟨us, heq, hbefore, hus, hD⟩ := hp
    exact ⟨us, heq, hbefore, hus, hDE us a hD⟩

theorem pure (n : Nat) {a : α} {D : List Token → α → Prop} (h : D [] a) :
    Parses n (Pure.pure a : Parser α) D :=
  fun _ _ _ ↦ ⟨[], rfl, rfl, unended_nil, h⟩

theorem bind {n : Nat} {p : Parser α} {f : α → Parser β} {C : List Token → α → Prop}
    {D : List Token → β → Prop} (h : Parses n p C)
    (hf : ∀ us a, C us a → Parses n (f a) fun vs b ↦ D (us ++ vs) b) : Parses n (p >>= f) D := by
  intro before rest hrest
  have hp := h before rest hrest
  rw [EStateM.run_bind]
  cases hrun : p.run ⟨before, rest⟩ with
  | error f after => simpa only [hrun] using hp
  | ok a after =>
    rw [hrun] at hp
    obtain ⟨before', rest'⟩ := after
    obtain ⟨us, rfl, rfl, hus, hC⟩ := hp
    have hq := hf us a hC (us.reverse ++ before) rest' (by simp at hrest; omega)
    simp only
    cases hrun' : (f a).run ⟨us.reverse ++ before, rest'⟩ with
    | error g after =>
      rw [hrun'] at hq
      exact hq.append hus
    | ok b after =>
      rw [hrun'] at hq
      obtain ⟨vs, rfl, hbefore, hvs, hD⟩ := hq
      refine ⟨us ++ vs, by simp, ?_, by simp [hus, hvs], hD⟩
      simp [hbefore]

theorem of_starves {p : Parser α} (h : Starves p) (D : List Token → α → Prop) : Parses 0 p D := by
  intro before rest hrest
  obtain rfl : rest = [] := List.length_eq_zero_iff.mp (Nat.le_zero.mp hrest)
  rw [h before]
  exact .inr ⟨unended_nil, rfl⟩

/-- A parser of a phrase after its first token `t`, run from before that token. -/
theorem after {n : Nat} {p : Parser α} {D : List Token → α → Prop} {t : Token}
    (ht : t.kind ≠ endOfText) (h : Parses n p fun us a ↦ D (t :: us) a) {before ts : List Token}
    (hts : ts.length ≤ n) :
    match p.run ⟨t :: before, ts⟩ with
    | .ok a after => ∃ us, t :: ts = us ++ after.rest ∧ after.before = us.reverse ++ before ∧
        Unended us ∧ D us a
    | .error f _ => Refused (t :: ts) f := by
  have hp := h (t :: before) ts hts
  cases hrun : p.run ⟨t :: before, ts⟩ with
  | error f after =>
    rw [hrun] at hp
    exact hp.cons ht
  | ok a after =>
    rw [hrun] at hp
    obtain ⟨us, rfl, hbefore, hus, hD⟩ := hp
    exact ⟨t :: us, rfl, by simp [hbefore], by simp [ht, hus], hD⟩

theorem accept? {n : Nat} {kinds : List Token.Kind} (hk : kinds ≠ []) {f : Option Token → Parser α}
    {D : List Token → α → Prop}
    (hsome : ∀ t, t.kind ∈ kinds → Parses n (f (some t)) fun us a ↦ D (t :: us) a)
    (hnone : Parses (n + 1) (f none) D) : Parses (n + 1) (Parser.accept? kinds >>= f) D := by
  intro before rest hrest
  cases rest with
  | nil =>
    rw [(starves_accept? hk).bind f before]
    exact .inr ⟨unended_nil, rfl⟩
  | cons t ts =>
    rw [EStateM.run_bind, run_accept?_cons]
    by_cases ht : t.kind ≠ endOfText ∧ t.kind ∈ kinds
    · rw [if_pos ht]
      exact (hsome t ht.2).after ht.1 (Nat.le_of_succ_le_succ hrest)
    · rw [if_neg ht]
      exact hnone before (t :: ts) hrest

theorem require (n : Nat) (kind : Token.Kind) (wording : String)
    (fault : Diagnostic.GrammarFault) :
    Parses n (Parser.require kind wording fault) fun us t ↦ us = [t] ∧ t.kind = kind := by
  intro before rest _
  cases rest with
  | nil =>
    rw [starves_require kind wording fault before]
    exact .inr ⟨unended_nil, rfl⟩
  | cons t ts =>
    rw [run_require_cons]
    by_cases ht : t.kind ≠ endOfText ∧ t.kind = kind
    · rw [if_pos ht]
      exact ⟨[t], rfl, rfl, by simp [ht.1], rfl, ht.2⟩
    · rw [if_neg ht]
      exact .inl ⟨t, List.mem_cons_self, fault, wording, _, rfl⟩

end Parses

theorem Parses.discard {n : Nat} {p : Parser α} {D : List Token → α → Prop} (h : Parses n p D) :
    Parses n (discard p) fun us _ ↦ ∃ a, D us a := by
  rw [discard_eq_bind]
  refine h.bind fun us a ha ↦ .pure n ?_
  exact ⟨a, by simpa using ha⟩

/-! ### Phrases -/

theorem Parses.groupingOver {n : Nat} {inner : Parser Expr}
    (h : Parses n inner (Derives .expression)) {opening : Token} (ho : opening.kind = leftParen) :
    Parses n (groupingOver inner) fun us e ↦ Derives .primary (opening :: us) e := by
  refine h.bind fun us e he ↦ (Parses.require n _ _ _).discard.bind ?_
  rintro vs - ⟨closing, rfl, hclosing⟩
  exact .pure n (.grouping ho he hclosing)

theorem parses_primary {n : Nat} (h : ∀ k < n, Parses k expression (Derives .expression)) :
    Parses n primary (Derives .primary) := by
  rw [primary_eq]
  intro before rest hrest
  cases rest with
  | nil =>
    rw [starves_primaryOver _ before]
    exact .inr ⟨unended_nil, rfl⟩
  | cons t ts =>
    rcases primaryOver_cases t with ⟨e, he, hrun⟩ | ⟨ht, hrun⟩ | hrun
    · rw [hrun]
      exact ⟨[t], rfl, rfl, he.unended, he⟩
    · rw [hrun]
      exact ((h ts.length hrest).groupingOver ht).after (by simp [ht]) (Nat.le_refl _)
    · rw [hrun]
      exact .inl ⟨t, List.mem_cons_self, _, _, _, rfl⟩

theorem parses_unary {n : Nat} (h : ∀ k < n, Parses k expression (Derives .expression)) :
    Parses n unary (Derives .unary) := by
  induction n with
  | zero => exact .of_starves (starves_reader .unary) _
  | succ n ih =>
    rw [unary_eq]
    refine .accept? (by simp) (fun operator hoperator ↦ ?_) ?_
    · refine (ih fun k hk ↦ h k (Nat.lt_succ_of_lt hk)).bind fun us e he ↦ .pure n ?_
      rw [List.append_nil]
      exact .unary (by simpa using hoperator) he
    · exact (parses_primary h).imp fun us e he ↦ .primary he

/-- The loop of a tier goes on with whatever phrase stands before it. -/
theorem parses_chain (t : Tier) {n : Nat} (h : Parses n (reader t.operand) (Derives t.operand))
    (left : Expr) : Parses n (chain t left) fun vs e ↦
      ∀ us, Derives (.tier t) us left → Derives (.tier t) (us ++ vs) e := by
  induction n generalizing left with
  | zero => exact .of_starves (starves_chain t left) _
  | succ n ih =>
    rw [chain_eq]
    refine .accept? t.operators_ne_nil (fun operator hoperator ↦ ?_) ?_
    · refine (h.mono (Nat.le_succ n)).bind fun vs right hright ↦ ?_
      refine (ih (h.mono (Nat.le_succ n)) _).imp fun ws e he us hus ↦ ?_
      have hbinary := he _ (.binary hus hoperator hright)
      simpa using hbinary
    · exact .pure _ fun us hus ↦ by simpa using hus

theorem parses_tier (t : Tier) {n : Nat} (h : Parses n (reader t.operand) (Derives t.operand)) :
    Parses n (reader (.tier t)) (Derives (.tier t)) := by
  rw [tier_eq]
  refine h.bind fun us left hleft ↦ (parses_chain t h left).imp fun vs e he ↦ ?_
  exact he us (.operand hleft)

theorem parses_equality {n : Nat} (h : ∀ k < n, Parses k expression (Derives .expression)) :
    Parses n equality (Derives (.tier .equality)) :=
  parses_tier .equality (parses_tier .comparison (parses_tier .term (parses_tier .factor
    (parses_unary h))))

theorem parses_assignment {n : Nat} (htarget : Parses n equality (Derives (.tier .equality)))
    (h : ∀ k < n, Parses k expression (Derives .assignment)) :
    Parses n expression (Derives .assignment) := by
  rw [expression_eq]
  refine htarget.bind fun us target ht ↦ ?_
  intro before rest hrest
  cases rest with
  | nil =>
    rw [(starves_accept? (by simp)).bind _ before]
    exact .inr ⟨unended_nil, rfl⟩
  | cons sign ts =>
    rw [EStateM.run_bind, run_accept?_cons]
    by_cases hsign : sign.kind ≠ endOfText ∧ sign.kind ∈ [equal]
    · rw [if_pos hsign]
      have hvalue := h ts.length hrest (sign :: before) ts (Nat.le_refl _)
      simp only [EStateM.run_bind]
      cases hrun : expression.run ⟨sign :: before, ts⟩ with
      | error f after =>
        rw [hrun] at hvalue
        exact hvalue.cons hsign.1
      | ok value after =>
        rw [hrun] at hvalue
        obtain ⟨vs, rfl, hbefore, hvs, hvalue⟩ := hvalue
        cases target with
        | reference name =>
          obtain ⟨rfl, hname⟩ := ht.of_reference
          refine ⟨sign :: vs, rfl, by simp [hbefore], by simp [hsign.1, hvs], ?_⟩
          exact .assign hname (by simpa using hsign.2) hvalue
        | _ => exact .inl ⟨sign, List.mem_cons_self, _, _, _, rfl⟩
    · rw [if_neg hsign]
      exact ⟨[], rfl, rfl, unended_nil, by simpa using .equality ht⟩

theorem parses_expression (n : Nat) : Parses n expression (Derives .expression) := by
  have hassignment : Parses n expression (Derives .assignment) := by
    induction n using Nat.strongRecOn with
    | ind n ih =>
      refine parses_assignment (parses_equality fun k hk ↦ ?_) ih
      exact (ih k hk).imp fun us e he ↦ .expression he
  exact hassignment.imp fun us e he ↦ .expression he

/-! ### Statements -/

theorem parses_closed {n : Nat} {D : List Token → Stmt → Prop} {s : Stmt} {wording : String}
    (h : ∀ mark : Token, mark.kind = semicolon → D [mark] s) : Parses n (closed s wording) D := by
  refine (Parses.require n _ _ _).discard.bind ?_
  rintro us - ⟨mark, rfl, hmark⟩
  exact .pure n (h mark hmark)

theorem parses_varDeclaration (n : Nat) {keyword : Token} (hkeyword : keyword.kind = kwVar) :
    Parses n varDeclaration fun us s ↦ Declaration (keyword :: us) s := by
  rw [varDeclaration_eq]
  refine (Parses.require n _ _ _).bind ?_
  rintro - name ⟨rfl, hname⟩
  cases n with
  | zero => exact .of_starves ((starves_accept? (by simp)).bind _) _
  | succ n =>
    refine .accept? (by simp) (fun sign hsign ↦ ?_) ?_
    · refine (parses_expression n).bind fun us e he ↦ parses_closed fun mark hmark ↦ ?_
      exact .varInitial hkeyword hname (by simpa using hsign) he hmark
    · exact parses_closed fun mark hmark ↦ .var hkeyword hname hmark

theorem parses_declaration (n : Nat) : Parses n declaration Declaration := by
  cases n with
  | zero => exact .of_starves ((starves_accept? (by simp)).bind _) _
  | succ n =>
    refine .accept? (by simp) (fun keyword hkeyword ↦ ?_) (.accept? (by simp) ?_ ?_)
    · exact parses_varDeclaration n (by simpa using hkeyword)
    · intro keyword hkeyword
      refine (parses_expression n).bind fun us e he ↦ parses_closed fun mark hmark ↦ ?_
      exact .statement (.print (by simpa using hkeyword) he hmark)
    · refine (parses_expression (n + 1)).bind fun us e he ↦ parses_closed fun mark hmark ↦ ?_
      exact .statement (.expression he hmark)

/-- A program is read up to the first token that ends the text, and that token is not taken. -/
theorem run_program (before rest : List Token) :
    match program.run ⟨before, rest⟩ with
    | .ok ss after => ∃ us final ts, rest = us ++ final :: ts ∧ final.kind = endOfText ∧
        Unended us ∧ after = ⟨us.reverse ++ before, final :: ts⟩ ∧ Program us ss
    | .error f _ => Refused rest f := by
  induction hn : rest.length using Nat.strongRecOn generalizing before rest with
  | ind n ih =>
    cases rest with
    | nil =>
      rw [starves_program before]
      exact .inr ⟨unended_nil, rfl⟩
    | cons t ts =>
      by_cases ht : t.kind = endOfText
      · rw [run_program_of_eq ht]
        exact ⟨[], t, ts, rfl, ht, unended_nil, rfl, .nil⟩
      · rw [run_program_of_ne ht, EStateM.run_bind]
        have hdeclaration := parses_declaration n before (t :: ts) (Nat.le_of_eq hn)
        cases hrun : declaration.run ⟨before, t :: ts⟩ with
        | error f after => simpa only [hrun] using hdeclaration
        | ok s after =>
          have hshorter := consumes_declaration _ _ _ hrun
          rw [hrun] at hdeclaration
          obtain ⟨before', rest⟩ := after
          obtain ⟨us, heq, rfl, hus, hs⟩ := hdeclaration
          have hprogram := ih rest.length (by simp_all) (us.reverse ++ before) rest rfl
          rw [heq]
          simp only [EStateM.run_bind]
          cases hrest : program.run ⟨us.reverse ++ before, rest⟩ with
          | error f after =>
            rw [hrest] at hprogram
            exact hprogram.append hus
          | ok ss after =>
            rw [hrest] at hprogram
            obtain ⟨vs, final, ws, rfl, hfinal, hvs, rfl, hss⟩ := hprogram
            refine ⟨us ++ vs, final, ws, by simp, hfinal, by simp [hus, hvs], ?_, .cons hs hss⟩
            simp

end Parser

end LoxLang
