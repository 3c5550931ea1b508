import LoxLang.Evaluation
import LoxLang.Proofs.Simulation

/-!
Chains of scopes that a program cannot tell apart.

A program sees a chain only through the names that it mentions. So it is enough that a relation
between chains is kept when such a name is defined or assigned, and that related chains give such a
name the same value (`Chain.Indistinct`): from related chains the program then prints the same text
and ends alike, and leaves related chains (`Chain.Indistinct.executeAll`).
-/

set_option autoImplicit false
set_option relaxedAutoImplicit false

namespace LoxLang

/-! ### The names of a program -/

/-- The name occurs in the expression, as a value or as the target of an assignment. -/
def Expr.Mentions (name : String) : Expr → Prop
  | assign target value => target.lexeme = name ∨ value.Mentions name
  | binary left _ right => left.Mentions name ∨ right.Mentions name
  | grouping inner => inner.Mentions name
  | literal _ => False
  | unary _ right => right.Mentions name
  | reference target => target.lexeme = name
  | foreign _ => False

def Stmt.Mentions (name : String) : Stmt → Prop
  | print value => value.Mentions name
  | expression value => value.Mentions name
  | var target initial => target.lexeme = name ∨ ∃ e ∈ initial, e.Mentions name
  | foreign _ => False

/-! ### Relations between chains -/

/-- Chains in the relation `S` answer alike about the names in `N`, and stay in the relation when
such a name is defined or assigned in both of them. -/
structure Chain.Indistinct (N : String → Prop) (S : Chain → Chain → Prop) : Prop where
  get? : ∀ {c c' : Chain} {name : String}, S c c' → N name → c'.get? name = c.get? name
  define : ∀ {c c' : Chain} {name : String} (value : Value), S c c' → N name →
    S (c.define name value) (c'.define name value)
  assign? : ∀ {c c' : Chain} {name : String} (value : Value), S c c' → N name →
    Option.Rel S (c.assign? name value) (c'.assign? name value)

/-- Machines that differ in nothing but their scopes, which are in the relation `S`. -/
structure Machine.Over (S : Chain → Chain → Prop) (m m' : Machine) : Prop where
  scopes : S m.scopes m'.scopes
  printed : m'.printed = m.printed
  notices : m'.notices = m.notices

namespace Chain.Indistinct

variable {N : String → Prop} {S : Chain → Chain → Prop} {α : Type}

/-- On machines over related chains, a computation does alike. -/
abbrev Respects (S : Chain → Chain → Prop) (x : Evaluation α) : Prop :=
  Simulates (Machine.Over S) Eq Eq x x

theorem respects_note (n : Notice) : Respects S (Evaluation.note n) := by
  apply simulates_modify
  intro m m' hm
  exact ⟨hm.scopes, hm.printed, by rw [hm.notices]⟩

theorem respects_printLine (text : String) : Respects S (Evaluation.printLine text) := by
  apply simulates_modify
  intro m m' hm
  exact ⟨hm.scopes, by rw [hm.printed], hm.notices⟩

theorem respects_failOnMishap (x : Except Mishap α) : Respects S (Evaluation.failOnMishap x) := by
  cases x with
  | ok a => exact simulates_pure rfl
  | error m => exact simulates_throw rfl

theorem respects_failOn (x : Except Failure α) : Respects S (Evaluation.failOn x) := by
  cases x with
  | ok a => exact simulates_pure rfl
  | error f => exact simulates_throw rfl

theorem respects_combine (operator : Token) (left right : Value) :
    Respects S (Evaluation.combine operator left right) := by
  unfold Evaluation.combine
  cases Value.combine operator.kind left right with
  | value v => exact simulates_pure rfl
  | mismatch => exact (respects_note _).bind fun _ _ _ ↦ simulates_pure rfl
  | divisionByZero => exact simulates_throw rfl

/-- A computation goes on in the same way from related machines. -/
theorem Respects.then {β : Type} {x : Evaluation α} {f : α → Evaluation β} (h : Respects S x)
    (hf : ∀ a, Respects S (f a)) : Respects S (x >>= f) := by
  apply h.bind
  rintro a _ rfl
  exact hf a

section

variable (hS : Indistinct N S)

include hS

theorem respects_get {name : Token} (hname : N name.lexeme) : Respects S (Evaluation.get name) := by
  refine simulates_get.bind fun m m' hm ↦ ?_
  rw [hS.get? hm.scopes hname]
  cases m.scopes.get? name.lexeme with
  | some value => exact simulates_pure rfl
  | none => exact simulates_throw rfl

theorem respects_define {name : Token} (hname : N name.lexeme) (value : Value) :
    Respects S (Evaluation.define name value) := by
  apply simulates_modify
  intro m m' hm
  exact ⟨hS.define value hm.scopes hname, hm.printed, hm.notices⟩

theorem respects_assign {name : Token} (hname : N name.lexeme) (value : Value) :
    Respects S (Evaluation.assign name value) := by
  refine simulates_get.bind fun m m' hm ↦ ?_
  have hassign := hS.assign? value hm.scopes hname
  generalize m.scopes.assign? name.lexeme value = found at hassign
  generalize m'.scopes.assign? name.lexeme value = found' at hassign
  cases hassign with
  | none => exact simulates_throw rfl
  | some hscopes => exact fun _ _ _ ↦ .ok rfl ⟨hscopes, hm.printed, hm.notices⟩

/-- Each step of the evaluation asks only about names of the expression. -/
theorem evaluate {e : Expr} (h : ∀ name, e.Mentions name → N name) : Respects S e.evaluate := by
  induction e with
  | assign name value ih =>
    have hvalue := ih fun other hother ↦ h other (.inr hother)
    have hname := h name.lexeme (.inl rfl)
    exact hvalue.then fun v ↦ (respects_assign hS hname v).then fun _ ↦ simulates_pure rfl
  | binary left operator right ihl ihr =>
    have hleft := ihl fun other hother ↦ h other (.inl hother)
    have hright := ihr fun other hother ↦ h other (.inr hother)
    exact hleft.then fun l ↦ hright.then fun r ↦ respects_combine operator l r
  | grouping inner ih => exact ih h
  | literal value => exact simulates_pure rfl
  | unary operator right ih => exact (ih h).then fun v ↦ simulates_pure rfl
  | reference name => exact respects_get hS (h name.lexeme rfl)
  | foreign node => exact simulates_throw rfl

theorem execute {s : Stmt} (h : ∀ name, s.Mentions name → N name) : Respects S s.execute := by
  cases s with
  | print value =>
    have hvalue := hS.evaluate (e := value) h
    exact hvalue.then fun v ↦ (respects_failOnMishap v.text).then respects_printLine
  | expression value => exact (hS.evaluate (e := value) h).discard
  | var name initial =>
    have hname := h name.lexeme (.inl rfl)
    cases initial with
    | none => exact respects_define hS hname .nil
    | some e =>
      have hinitial := hS.evaluate fun other hother ↦ h other (.inr ⟨e, rfl, hother⟩)
      exact hinitial.then (respects_define hS hname)
  | foreign node => exact simulates_throw rfl

/-- From related chains a program ends alike and leaves related chains. -/
theorem executeAll {program : List Stmt} (h : ∀ s ∈ program, ∀ name, s.Mentions name → N name) :
    Respects S (LoxLang.executeAll program) := by
  induction program with
  | nil => exact simulates_pure rfl
  | cons s program ih =>
    obtain ⟨hs, hprogram⟩ := List.forall_mem_cons.mp h
    exact (hS.execute hs).then fun _ ↦ ih hprogram

end

/-- Texts may mention any name. -/
theorem run (hS : Indistinct (fun _ ↦ True) S) (source : String) :
    Respects S (LoxLang.run source) := by
  unfold LoxLang.run LoxLang.readProgram
  simp only [bind_assoc, pure_bind]
  refine (respects_note _).then fun _ ↦ (respects_failOn _).then fun tokens ↦ ?_
  refine (respects_failOn _).then fun program ↦ (respects_note _).then fun _ ↦ ?_
  exact (respects_note _).then fun _ ↦ hS.executeAll fun _ _ _ _ ↦ trivial

end Chain.Indistinct

end LoxLang
