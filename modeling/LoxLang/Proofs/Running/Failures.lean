import LoxLang.Evaluation
import LoxLang.Proofs.Grammar
import LoxLang.Proofs.Simulation

/-!
How execution can fail.

A tree that the grammar gives has no foreign nodes, and its names and operators are tokens of the
text (`Expr.BuiltFrom`). Its evaluation fails only at a name that is not bound or at a division by
zero (`Expr.BuiltFrom.fails`), and a statement fails only as its expression does, or where it prints
a whole number that is too long.
-/

set_option autoImplicit false
set_option relaxedAutoImplicit false

namespace LoxLang

open Token.Kind Grammar

/-! ### Trees of a text -/

/-- The names and operators of the tree are among the tokens, and the tree has no foreign node. -/
def Expr.BuiltFrom (ts : List Token) : Expr → Prop
  | assign name value => (name ∈ ts ∧ name.kind = identifier) ∧ value.BuiltFrom ts
  | binary left operator right =>
    left.BuiltFrom ts ∧ operator ∈ ts ∧ right.BuiltFrom ts
  | grouping inner => inner.BuiltFrom ts
  | literal _ => True
  | unary _ right => right.BuiltFrom ts
  | reference name => name ∈ ts ∧ name.kind = identifier
  | foreign _ => False

def Stmt.BuiltFrom (ts : List Token) : Stmt → Prop
  | print value => value.BuiltFrom ts
  | expression value => value.BuiltFrom ts
  | var _ initial => ∀ e ∈ initial, e.BuiltFrom ts
  | foreign _ => False

theorem Expr.BuiltFrom.mono {us vs : List Token} (h : us ⊆ vs) {e : Expr} (he : e.BuiltFrom us) :
    e.BuiltFrom vs := by
  induction e with
  | assign name value ih => exact ⟨⟨h he.1.1, he.1.2⟩, ih he.2⟩
  | binary left operator right ihl ihr => exact ⟨ihl he.1, h he.2.1, ihr he.2.2⟩
  | grouping inner ih => exact ih he
  | literal value => exact trivial
  | unary operator right ih => exact ih he
  | reference name => exact ⟨h he.1, he.2⟩
  | foreign node => exact he.elim

theorem Stmt.BuiltFrom.mono {us vs : List Token} (h : us ⊆ vs) {s : Stmt} (hs : s.BuiltFrom us) :
    s.BuiltFrom vs := by
  cases s with
  | print value => exact Expr.BuiltFrom.mono h hs
  | expression value => exact Expr.BuiltFrom.mono h hs
  | var name initial => exact fun e he ↦ (hs e he).mono h
  | foreign node => exact hs.elim

theorem Grammar.Derives.builtFrom {n : Nonterminal} {ts : List Token} {e : Expr}
    (h : Derives n ts e) : e.BuiltFrom ts := by
  induction h with
  | expression _ ih | equality _ ih | operand _ ih | primary _ ih => exact ih
  | assign hname _ _ ih => exact ⟨⟨by simp, hname⟩, ih.mono (by simp)⟩
  | binary _ _ _ ihl ihr => exact ⟨ihl.mono (by simp), by simp, ihr.mono (by simp)⟩
  | unary _ _ ih => exact ih.mono (by simp)
  | true | false | nil | number | string => exact trivial
  | reference h => exact ⟨by simp, h⟩
  | grouping _ _ _ ih => exact ih.mono (by simp)

theorem Grammar.Declaration.builtFrom {ts : List Token} {s : Stmt} (h : Declaration ts s) :
    s.BuiltFrom ts := by
  cases h with
  | var => exact fun e he ↦ by cases he
  | varInitial _ _ _ h _ =>
    intro e he
    obtain rfl := Option.some.inj he
    exact h.builtFrom.mono fun _ ht ↦ by simp [ht]
  | statement h =>
    cases h with
    | print _ h _ => exact h.builtFrom.mono (by simp)
    | expression h _ => exact h.builtFrom.mono (by simp)

theorem Grammar.Program.builtFrom {ts : List Token} {ss : List Stmt} (h : Program ts ss) :
    ∀ s ∈ ss, s.BuiltFrom ts := by
  induction h with
  | nil => simp
  | cons h _ ih =>
    exact List.forall_mem_cons.mpr ⟨h.builtFrom.mono (by simp), fun s hs ↦ (ih s hs).mono (by simp)⟩

/-! ### Failures of evaluation -/

/-- The failures that evaluation can end with in a machine. -/
inductive EvaluationFailure (ts : List Token) (m : Machine) : Failure → Prop
  | undefinedVariable {t : Token} (ht : t ∈ ts) (hkind : t.kind = identifier)
    (hunbound : m.scopes.get? t.lexeme = none) :
    EvaluationFailure ts m (.diagnostic (.undefinedVariable t))
  | divisionByZero {t : Token} (ht : t ∈ ts) (hkind : t.kind = slash) :
    EvaluationFailure ts m (.diagnostic (.divisionByZero t))

namespace Evaluation

variable {ts : List Token} {m m' : Machine} {f : Failure}

theorem get_fails {t : Token} (ht : t ∈ ts) (hkind : t.kind = identifier)
    (h : (get t).run m = .error f m') : EvaluationFailure ts m' f := by
  rcases run_bind_eq_error h with h | ⟨_, _, hget, h⟩
  · cases h
  · cases hget
    cases hvalue : m.scopes.get? t.lexeme with
    | some value =>
      rw [hvalue] at h
      cases h
    | none =>
      rw [hvalue] at h
      cases h
      exact .undefinedVariable ht hkind hvalue

theorem assign_fails {t : Token} (ht : t ∈ ts) (hkind : t.kind = identifier) {value : Value}
    (h : (assign t value).run m = .error f m') : EvaluationFailure ts m' f := by
  rcases run_bind_eq_error h with h | ⟨_, _, hget, h⟩
  · cases h
  · cases hget
    cases hscopes : m.scopes.assign? t.lexeme value with
    | some scopes =>
      rw [hscopes] at h
      cases h
    | none =>
      have hunbound : m.scopes.get? t.lexeme = none := by
        have hcontains := Chain.isSome_assign? t.lexeme value m.scopes
        simpa [hscopes, Chain.contains] using hcontains
      rw [hscopes] at h
      cases h
      exact .undefinedVariable ht hkind hunbound

theorem combine_fails {t : Token} (ht : t ∈ ts) {left right : Value}
    (h : (combine t left right).run m = .error f m') : EvaluationFailure ts m' f := by
  unfold combine at h
  cases hresult : Value.combine t.kind left right with
  | value v =>
    rw [hresult] at h
    cases h
  | mismatch =>
    rw [hresult] at h
    cases h
  | divisionByZero =>
    rw [hresult] at h
    cases h
    exact .divisionByZero ht (Value.combine_eq_divisionByZero_iff.mp hresult).1

/-- Only a whole number that is too long has no text. -/
theorem failOnMishap_text_eq_error {v : Value} (h : (failOnMishap v.text).run m = .error f m') :
    ∃ n, v = .integer n ∧ f = .mishap .integerTooLong ∧ Value.isTooLong n = true ∧ m' = m := by
  cases v with
  | integer n =>
    cases htext : Value.integerText n with
    | ok text =>
      rw [Value.text, htext] at h
      cases h
    | error mishap =>
      obtain ⟨rfl, hlong⟩ := Value.integerText_eq_error_iff.mp htext
      rw [Value.text, htext] at h
      cases h
      exact ⟨n, rfl, rfl, hlong, rfl⟩
  | nil | bool | float | string => cases h

end Evaluation

open Evaluation

/-- A tree of the text fails only at an unbound name or at a division by zero. -/
theorem Expr.BuiltFrom.fails {ts : List Token} {e : Expr} (he : e.BuiltFrom ts) {m m' : Machine}
    {f : Failure} (h : e.evaluate.run m = .error f m') : EvaluationFailure ts m' f := by
  induction e generalizing m m' f with
  | assign name value ih =>
    rcases run_bind_eq_error h with h | ⟨v, m₁, -, h⟩
    · exact ih he.2 h
    · rcases run_bind_eq_error h with h | ⟨_, _, -, h⟩
      · exact assign_fails he.1.1 he.1.2 h
      · cases h
  | binary left operator right ihl ihr =>
    rcases run_bind_eq_error h with h | ⟨l, m₁, -, h⟩
    · exact ihl he.1 h
    · rcases run_bind_eq_error h with h | ⟨r, m₂, -, h⟩
      · exact ihr he.2.2 h
      · exact combine_fails he.2.1 h
  | grouping inner ih => exact ih he h
  | literal value => cases h
  | unary operator right ih =>
    rcases run_bind_eq_error h with h | ⟨v, m₁, -, h⟩
    · exact ih he h
    · cases h
  | reference name => exact get_fails he.1 he.2 h
  | foreign node => exact he.elim

/-! ### Failures of execution -/

/-- A statement of the text fails as its expression does, or at printing a whole number that is too
long. -/
theorem Stmt.BuiltFrom.fails {ts : List Token} {s : Stmt} (hs : s.BuiltFrom ts) {m m' : Machine}
    {f : Failure} (h : s.execute.run m = .error f m') :
    EvaluationFailure ts m' f ∨ f = .mishap .integerTooLong ∧
      ∃ e n, s = .print e ∧ e.evaluate.run m = .ok (.integer n) m' ∧
        Value.isTooLong n = true := by
  cases s with
  | print e =>
    rcases run_bind_eq_error h with h | ⟨v, m₁, hv, h⟩
    · exact .inl (Expr.BuiltFrom.fails hs h)
    · rcases run_bind_eq_error h with h | ⟨_, _, -, h⟩
      · obtain ⟨n, rfl, rfl, hlong, rfl⟩ := failOnMishap_text_eq_error h
        exact .inr ⟨rfl, e, n, rfl, hv, hlong⟩
      · cases h
  | expression e =>
    rcases run_bind_eq_error h with h | ⟨_, _, -, h⟩
    · exact .inl (Expr.BuiltFrom.fails hs h)
    · cases h
  | var name initial =>
    cases initial with
    | none => cases h
    | some e =>
      rcases run_bind_eq_error h with h | ⟨_, _, -, h⟩
      · exact .inl ((hs e rfl).fails h)
      · cases h
  | foreign node => exact hs.elim

/-- Execution stops at the first statement that fails. -/
theorem executeAll_eq_error {ss : List Stmt} {m m' : Machine} {f : Failure}
    (h : (executeAll ss).run m = .error f m') :
    ∃ done s rest m₁, ss = done ++ s :: rest ∧ (executeAll done).run m = .ok () m₁ ∧
      s.execute.run m₁ = .error f m' := by
  induction ss generalizing m with
  | nil => cases h
  | cons s ss ih =>
    rcases run_bind_eq_error h with h | ⟨_, m₁, hs, h⟩
    · exact ⟨[], s, ss, m, rfl, rfl, h⟩
    · obtain ⟨done, t, rest, m₂, rfl, hdone, ht⟩ := ih h
      refine ⟨s :: done, t, rest, m₂, rfl, ?_, ht⟩
      rw [executeAll, EStateM.run_bind, hs]
      exact hdone

end LoxLang
