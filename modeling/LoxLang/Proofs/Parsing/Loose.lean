import LoxLang.Proofs.Grammar

/-!
The grammar in which any equality may be assigned to.

The parser reads the target of an assignment as an equality before it looks whether that is a name,
so it follows this grammar (`Loose`) and not the one with names for targets. All phrases and
statements of the one are phrases and statements of the other (`Derives.loose`,
`Declaration.declarations`).
-/

set_option autoImplicit false
set_option relaxedAutoImplicit false

namespace LoxLang

open Token.Kind

namespace Grammar

/-- `Loose x tokens`: the tokens are a phrase of `x` if any equality may be assigned to. -/
inductive Loose : Nonterminal → List Token → Prop
  | expression {ts : List Token} (h : Loose .assignment ts) : Loose .expression ts
  | assign {us vs : List Token} {sign : Token} (ht : Loose (.tier .equality) us)
      (hsign : sign.kind = equal) (h : Loose .assignment vs) :
      Loose .assignment (us ++ sign :: vs)
  | equality {ts : List Token} (h : Loose (.tier .equality) ts) : Loose .assignment ts
  | operand {t : Tier} {ts : List Token} (h : Loose t.operand ts) : Loose (.tier t) ts
  | binary {t : Tier} {us vs : List Token} {operator : Token} (hl : Loose (.tier t) us)
      (hoperator : operator.kind ∈ t.operators) (hr : Loose t.operand vs) :
      Loose (.tier t) (us ++ operator :: vs)
  | unary {operator : Token} {ts : List Token}
      (hoperator : operator.kind = bang ∨ operator.kind = minus) (h : Loose .unary ts) :
      Loose .unary (operator :: ts)
  | primary {ts : List Token} (h : Loose .primary ts) : Loose .unary ts
  | true {t : Token} (h : t.kind = kwTrue) : Loose .primary [t]
  | false {t : Token} (h : t.kind = kwFalse) : Loose .primary [t]
  | nil {t : Token} (h : t.kind = kwNil) : Loose .primary [t]
  | number {t : Token} (h : t.kind = number) : Loose .primary [t]
  | string {t : Token} (h : t.kind = string) : Loose .primary [t]
  | reference {t : Token} (h : t.kind = identifier) : Loose .primary [t]
  | grouping {opening closing : Token} {ts : List Token} (hopening : opening.kind = leftParen)
      (h : Loose .expression ts) (hclosing : closing.kind = rightParen) :
      Loose .primary (opening :: ts ++ [closing])

/-- The tokens of a declaration before the mark that ends it. -/
inductive Unclosed : List Token → Prop
  | var {keyword name : Token} (hkeyword : keyword.kind = kwVar) (hname : name.kind = identifier) :
      Unclosed [keyword, name]
  | varInitial {keyword name sign : Token} {ts : List Token} (hkeyword : keyword.kind = kwVar)
      (hname : name.kind = identifier) (hsign : sign.kind = equal) (h : Loose .expression ts) :
      Unclosed (keyword :: name :: sign :: ts)
  | print {keyword : Token} {ts : List Token} (hkeyword : keyword.kind = kwPrint)
      (h : Loose .expression ts) : Unclosed (keyword :: ts)
  | expression {ts : List Token} (h : Loose .expression ts) : Unclosed ts

/-- The tokens of a whole text, without the one that ends it. -/
inductive Declarations : List Token → Prop
  | nil : Declarations []
  | cons {us vs : List Token} {mark : Token} (h : Unclosed us) (hmark : mark.kind = semicolon)
      (hs : Declarations vs) : Declarations (us ++ mark :: vs)

theorem Derives.loose {x : Nonterminal} {ts : List Token} {e : Expr} (h : Derives x ts e) :
    Loose x ts := by
  induction h with
  | expression _ ih => exact .expression ih
  | assign hname hsign _ ih =>
    have htarget : Loose (.tier .factor) [_] := .operand (.primary (.reference hname))
    exact .assign (.operand (.operand (.operand htarget))) hsign ih
  | equality _ ih => exact .equality ih
  | operand _ ih => exact .operand ih
  | binary _ hoperator _ ihl ihr => exact .binary ihl hoperator ihr
  | unary hoperator _ ih => exact .unary hoperator ih
  | primary _ ih => exact .primary ih
  | true h => exact .true h
  | false h => exact .false h
  | nil h => exact .nil h
  | number h => exact .number h
  | string h => exact .string h
  | reference h => exact .reference h
  | grouping hopening _ hclosing ih => exact .grouping hopening ih hclosing

/-- The kinds of the first token of an operand. -/
def operandStarts : List Token.Kind :=
  [kwTrue, kwFalse, kwNil, number, string, identifier, leftParen]

theorem Loose.exists_cons_of_primary {ts : List Token} (h : Loose .primary ts) :
    ∃ t us, ts = t :: us ∧ t.kind ∈ operandStarts := by
  cases h with
  | true h | false h | nil h | number h | string h | reference h =>
    exact ⟨_, [], rfl, by simp [operandStarts, h]⟩
  | grouping h => exact ⟨_, _, rfl, by simp [operandStarts, h]⟩

theorem Loose.exists_cons {x : Nonterminal} {ts : List Token} (h : Loose x ts) :
    ∃ t us, ts = t :: us ∧ t.kind ∈ bang :: minus :: operandStarts := by
  induction h with
  | expression _ ih | equality _ ih | operand _ ih | primary _ ih => exact ih
  | assign _ _ _ ih | binary _ _ _ ih =>
    obtain ⟨t, us, rfl, ht⟩ := ih
    exact ⟨t, _, rfl, ht⟩
  | unary hoperator => exact ⟨_, _, rfl, by rcases hoperator with h | h <;> simp [h]⟩
  | true h | false h | nil h | number h | string h | reference h =>
    exact ⟨_, [], rfl, by simp [operandStarts, h]⟩
  | grouping h => exact ⟨_, _, rfl, by simp [operandStarts, h]⟩

theorem Unclosed.exists_cons {us : List Token} (h : Unclosed us) :
    ∃ t ts, us = t :: ts ∧ t.kind ≠ endOfText := by
  cases h with
  | var hkeyword | varInitial hkeyword | print hkeyword => exact ⟨_, _, rfl, by simp [hkeyword]⟩
  | expression h =>
    obtain ⟨t, ts, rfl, ht⟩ := h.exists_cons
    refine ⟨t, ts, rfl, fun hend ↦ ?_⟩
    rw [hend] at ht
    revert ht
    decide

theorem Declarations.append {us vs : List Token} (hus : Declarations us)
    (hvs : Declarations vs) : Declarations (us ++ vs) := by
  induction hus with
  | nil => exact hvs
  | cons h hmark _ ih =>
    rw [List.append_assoc]
    exact .cons h hmark ih

theorem Declarations.concat {us vs : List Token} (hus : Declarations us) (hvs : Unclosed vs)
    {mark : Token} (hmark : mark.kind = semicolon) : Declarations (us ++ vs ++ [mark]) := by
  rw [List.append_assoc]
  exact hus.append (.cons hvs hmark .nil)

/-- Statements of the grammar are declarations. -/
theorem Declaration.declarations {us : List Token} {s : Stmt} (h : Declaration us s) :
    Declarations us := by
  cases h with
  | var hkeyword hname hmark => exact .cons (.var hkeyword hname) hmark .nil
  | varInitial hkeyword hname hsign h hmark =>
    exact .cons (.varInitial hkeyword hname hsign h.loose) hmark .nil
  | statement h =>
    cases h with
    | print hkeyword h hmark => exact .cons (.print hkeyword h.loose) hmark .nil
    | expression h hmark => exact .cons (.expression h.loose) hmark .nil

end Grammar

end LoxLang
