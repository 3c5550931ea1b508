import LoxLang.Tree

/-!
The grammar of the language as a relation between tokens and the trees that they spell.

A phrase of a binary tier is an operand, or a phrase of the tier, an operator and an operand; its
tree therefore leans to the left. Unary operators and assignments recur on their right, and the
target of an assignment is a single name. No phrase holds the token that ends a text.
-/

set_option autoImplicit false
set_option relaxedAutoImplicit false

namespace LoxLang

open Token.Kind

/-- Tokens none of which ends the text. -/
def Unended (tokens : List Token) : Prop :=
  ∀ t ∈ tokens, t.kind ≠ endOfText

@[simp]
theorem unended_nil : Unended [] := by
  simp [Unended]

@[simp]
theorem unended_cons {t : Token} {ts : List Token} :
    Unended (t :: ts) ↔ t.kind ≠ endOfText ∧ Unended ts := by
  simp [Unended]

@[simp]
theorem unended_append {us vs : List Token} : Unended (us ++ vs) ↔ Unended us ∧ Unended vs := by
  simp only [Unended, List.mem_append]
  constructor
  · intro h
    exact ⟨fun t ht ↦ h t (.inl ht), fun t ht ↦ h t (.inr ht)⟩
  · rintro ⟨hu, hv⟩ t (ht | ht)
    · exact hu t ht
    · exact hv t ht

/-- A list has only one first element without a property. -/
theorem eq_of_first_not {α : Type} {P : α → Prop} {us us' vs vs' : List α} {a b : α}
    (h : us ++ a :: vs = us' ++ b :: vs') (hus : ∀ u ∈ us, P u) (hus' : ∀ u ∈ us', P u)
    (ha : ¬ P a) (hb : ¬ P b) : us = us' ∧ a = b := by
  induction us generalizing us' with
  | nil =>
    cases us' with
    | nil => exact ⟨rfl, (List.cons.inj h).1⟩
    | cons u us' =>
      obtain ⟨rfl, -⟩ := List.cons.inj h
      exact absurd (hus' a List.mem_cons_self) ha
  | cons u us ih =>
    cases us' with
    | nil =>
      obtain ⟨rfl, -⟩ := List.cons.inj h
      exact absurd (hus u List.mem_cons_self) hb
    | cons u' us' =>
      obtain ⟨rfl, htail⟩ := List.cons.inj h
      obtain ⟨rfl, rfl⟩ := ih htail (List.forall_mem_cons.mp hus).2 (List.forall_mem_cons.mp hus').2
      exact ⟨rfl, rfl⟩

/-- The tokens before the first end of text are determined by the whole list. -/
theorem Unended.eq_of_append_eq {us vs us' vs' : List Token} {t t' : Token} (hus : Unended us)
    (hvs : Unended vs) (ht : t.kind = endOfText) (ht' : t'.kind = endOfText)
    (h : us ++ t :: us' = vs ++ t' :: vs') : us = vs :=
  (eq_of_first_not (P := fun u : Token ↦ u.kind ≠ endOfText) h hus hvs (fun hne ↦ hne ht)
    fun hne ↦ hne ht').1

namespace Grammar

/-- The tiers of binary operators, from the loosest to the tightest. -/
inductive Tier
  | equality
  | comparison
  | term
  | factor
  deriving DecidableEq, Repr

inductive Nonterminal
  | expression
  | assignment
  | tier (t : Tier)
  | unary
  | primary
  deriving DecidableEq, Repr

namespace Tier

def operators : Tier → List Token.Kind
  | equality => [bangEqual, equalEqual]
  | comparison => [greater, greaterEqual, less, lessEqual]
  | term => [minus, plus]
  | factor => [slash, star]

/-- What stands between the operators of a tier. -/
def operand : Tier → Nonterminal
  | equality => .tier comparison
  | comparison => .tier term
  | term => .tier factor
  | factor => .unary

theorem operators_ne_nil (t : Tier) : t.operators ≠ [] := by
  cases t <;> simp [operators]

theorem ne_endOfText_of_mem_operators {t : Tier} {kind : Token.Kind} (h : kind ∈ t.operators) :
    kind ≠ endOfText := by
  rintro rfl
  cases t <;> simp [operators] at h

end Tier

/-- `Derives n tokens e`: the tokens are a phrase of `n` that spells `e`. -/
inductive Derives : Nonterminal → List Token → Expr → Prop
  | expression {ts : List Token} {e : Expr} (h : Derives .assignment ts e) :
      Derives .expression ts e
  | assign {name sign : Token} {ts : List Token} {e : Expr} (hname : name.kind = identifier)
      (hsign : sign.kind = equal) (h : Derives .assignment ts e) :
      Derives .assignment (name :: sign :: ts) (.assign name e)
  | equality {ts : List Token} {e : Expr} (h : Derives (.tier .equality) ts e) :
      Derives .assignment ts e
  | operand {t : Tier} {ts : List Token} {e : Expr} (h : Derives t.operand ts e) :
      Derives (.tier t) ts e
  | binary {t : Tier} {us vs : List Token} {l r : Expr} {operator : Token}
      (hl : Derives (.tier t) us l) (hoperator : operator.kind ∈ t.operators)
      (hr : Derives t.operand vs r) :
      Derives (.tier t) (us ++ operator :: vs) (.binary l operator r)
  | unary {operator : Token} {ts : List Token} {e : Expr}
      (hoperator : operator.kind = bang ∨ operator.kind = minus) (h : Derives .unary ts e) :
      Derives .unary (operator :: ts) (.unary operator e)
  | primary {ts : List Token} {e : Expr} (h : Derives .primary ts e) : Derives .unary ts e
  | true {t : Token} (h : t.kind = kwTrue) : Derives .primary [t] (.literal (.bool true))
  | false {t : Token} (h : t.kind = kwFalse) : Derives .primary [t] (.literal (.bool false))
  | nil {t : Token} (h : t.kind = kwNil) : Derives .primary [t] (.literal .nil)
  | number {t : Token} (h : t.kind = number) : Derives .primary [t] (.literal t.literal)
  | string {t : Token} (h : t.kind = string) : Derives .primary [t] (.literal t.literal)
  | reference {t : Token} (h : t.kind = identifier) : Derives .primary [t] (.reference t)
  | grouping {opening closing : Token} {ts : List Token} {e : Expr}
      (hopening : opening.kind = leftParen) (h : Derives .expression ts e)
      (hclosing : closing.kind = rightParen) :
      Derives .primary (opening :: ts ++ [closing]) (.grouping e)

inductive Statement : List Token → Stmt → Prop
  | print {keyword mark : Token} {ts : List Token} {e : Expr} (hkeyword : keyword.kind = kwPrint)
      (h : Derives .expression ts e) (hmark : mark.kind = semicolon) :
      Statement (keyword :: ts ++ [mark]) (.print e)
  | expression {mark : Token} {ts : List Token} {e : Expr} (h : Derives .expression ts e)
      (hmark : mark.kind = semicolon) :
      Statement (ts ++ [mark]) (.expression e)

inductive Declaration : List Token → Stmt → Prop
  | var {keyword name mark : Token} (hkeyword : keyword.kind = kwVar)
      (hname : name.kind = identifier) (hmark : mark.kind = semicolon) :
      Declaration [keyword, name, mark] (.var name none)
  | varInitial {keyword name sign mark : Token} {ts : List Token} {e : Expr}
      (hkeyword : keyword.kind = kwVar) (hname : name.kind = identifier)
      (hsign : sign.kind = equal) (h : Derives .expression ts e) (hmark : mark.kind = semicolon) :
      Declaration (keyword :: name :: sign :: ts ++ [mark]) (.var name (some e))
  | statement {ts : List Token} {s : Stmt} (h : Statement ts s) : Declaration ts s

/-- The tokens of a whole text, without the one that ends it. -/
inductive Program : List Token → List Stmt → Prop
  | nil : Program [] []
  | cons {us vs : List Token} {s : Stmt} {ss : List Stmt} (h : Declaration us s)
      (hs : Program vs ss) : Program (us ++ vs) (s :: ss)

theorem Derives.unended {n : Nonterminal} {ts : List Token} {e : Expr} (h : Derives n ts e) :
    Unended ts := by
  induction h with
  | expression _ ih | equality _ ih | operand _ ih | primary _ ih => exact ih
  | assign hname hsign _ ih => simp [hname, hsign, ih]
  | binary _ hoperator _ ihl ihr =>
    simp [ihl, ihr, Tier.ne_endOfText_of_mem_operators hoperator]
  | unary hoperator _ ih =>
    rcases hoperator with h | h <;> simp [h, ih]
  | true h | false h | nil h | number h | string h | reference h => simp [h]
  | grouping hopening _ hclosing ih => simp [hopening, hclosing, ih]

theorem Statement.unended {ts : List Token} {s : Stmt} (h : Statement ts s) : Unended ts := by
  cases h with
  | print hkeyword h hmark => simp [hkeyword, hmark, h.unended]
  | expression h hmark => simp [hmark, h.unended]

theorem Declaration.unended {ts : List Token} {s : Stmt} (h : Declaration ts s) : Unended ts := by
  cases h with
  | var hkeyword hname hmark => simp [hkeyword, hname, hmark]
  | varInitial hkeyword hname hsign h hmark => simp [hkeyword, hname, hsign, hmark, h.unended]
  | statement h => exact h.unended

end Grammar

end LoxLang
