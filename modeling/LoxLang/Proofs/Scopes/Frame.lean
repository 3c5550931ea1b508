import LoxLang.Proofs.Running.Uses
import LoxLang.Proofs.Scopes.Indistinct

/-!
What a program leaves as it is.

The scopes of a chain are numbered outwards from the innermost one. A definition writes the
innermost scope, an assignment the nearest one that binds the name (`Chain.valueAt?_of_assign?`).
Therefore a run changes a chain in no other way than `Chain.Frame` says, also where it fails, and
what it prints and how it ends depends on nothing but the values that the names of the program have
(`frame_executeAll`).
-/

set_option autoImplicit false
set_option relaxedAutoImplicit false

namespace LoxLang

variable {α β : Type} {c d e : Chain} {declared targets : List String}

/-! ### The bindings of each scope -/

/-- The value that a name has in the scope `k` steps outwards from the innermost one. -/
def Chain.valueAt? (name : String) : Chain → Nat → Option Value
  | globe s, 0 => s.get? name
  | globe _, _ + 1 => none
  | within s _, 0 => s.get? name
  | within _ outer, k + 1 => outer.valueAt? name k

theorem Chain.valueAt?_define (name other : String) (value : Value) (c : Chain) (k : Nat) :
    (c.define name value).valueAt? other k =
      if k = 0 ∧ other = name then some value else c.valueAt? other k := by
  cases c <;> cases k <;> simp [define, valueAt?]

theorem Chain.length_scopes_define (name : String) (value : Value) (c : Chain) :
    (c.define name value).scopes.length = c.scopes.length := by
  cases c <;> simp [define, scopes]

/-- An assignment writes one binding, that of the name in the nearest scope that has one. -/
theorem Chain.valueAt?_of_assign? {name : String} {value : Value}
    (h : c.assign? name value = some d) :
    ∃ j, (c.valueAt? name j).isSome ∧ (∀ i < j, c.valueAt? name i = none) ∧
      ∀ k other, d.valueAt? other k =
        if k = j ∧ other = name then some value else c.valueAt? other k := by
  induction c generalizing d with
  | globe s =>
    simp only [assign?, Option.ite_none_right_eq_some, Option.some.injEq] at h
    obtain ⟨hs, rfl⟩ := h
    exact ⟨0, hs, by simp, fun k other ↦ valueAt?_define name other value (globe s) k⟩
  | within s outer ih =>
    rw [assign?] at h
    split at h
    · next hs =>
      obtain rfl := Option.some.inj h
      refine ⟨0, hs, by simp, fun k other ↦ ?_⟩
      exact valueAt?_define name other value (within s outer) k
    · next hs =>
      obtain ⟨d, hd, rfl⟩ := Option.map_eq_some_iff.mp h
      obtain ⟨j, hj, hnearer, hvalue⟩ := ih hd
      refine ⟨j + 1, hj, fun i hi ↦ ?_, fun k other ↦ ?_⟩
      · cases i with
        | zero => simpa [valueAt?, Scope.contains] using hs
        | succ i => exact hnearer i (Nat.lt_of_succ_lt_succ hi)
      · cases k with
        | zero => simp [valueAt?]
        | succ k => simpa [valueAt?] using hvalue k other

theorem Chain.length_scopes_of_assign? {name : String} {value : Value}
    (h : c.assign? name value = some d) : d.scopes.length = c.scopes.length := by
  induction c generalizing d with
  | globe s =>
    simp only [assign?, Option.ite_none_right_eq_some, Option.some.injEq] at h
    obtain ⟨-, rfl⟩ := h
    rfl
  | within s outer ih =>
    rw [assign?] at h
    split at h
    · obtain rfl := Option.some.inj h
      simp [scopes]
    · obtain ⟨d, hd, rfl⟩ := Option.map_eq_some_iff.mp h
      simp [scopes, ih hd]

/-! ### Chains before and after -/

/-- What may become of a chain where only the names `declared` are defined and only the names
`targets` are assigned. -/
structure Chain.Frame (declared targets : List String) (c d : Chain) : Prop where
  depth : d.scopes.length = c.scopes.length
  kept : ∀ k name, (c.valueAt? name k).isSome → (d.valueAt? name k).isSome
  gained : ∀ k name, c.valueAt? name k = none → (d.valueAt? name k).isSome →
    k = 0 ∧ name ∈ declared
  untouched : ∀ k name, name ∉ declared → name ∉ targets → d.valueAt? name k = c.valueAt? name k
  shadowed : ∀ j k name, j < k → (c.valueAt? name j).isSome → d.valueAt? name k = c.valueAt? name k

namespace Chain.Frame

theorem refl (declared targets : List String) (c : Chain) : c.Frame declared targets c where
  depth := rfl
  kept _ _ h := h
  gained _ _ hnone hsome := by simp [hnone] at hsome
  untouched _ _ _ _ := rfl
  shadowed _ _ _ _ _ := rfl

theorem trans (h : c.Frame declared targets d) (h' : d.Frame declared targets e) :
    c.Frame declared targets e where
  depth := h'.depth.trans h.depth
  kept k name hc := h'.kept k name (h.kept k name hc)
  gained k name hnone hsome := by
    cases hd : d.valueAt? name k with
    | none => exact h'.gained k name hd hsome
    | some value => exact h.gained k name hnone (by simp [hd])
  untouched k name hdeclared htargets :=
    (h'.untouched k name hdeclared htargets).trans (h.untouched k name hdeclared htargets)
  -- What the first part of a run finds shadowed is still shadowed in the second one.
  shadowed j k name hjk hc :=
    (h'.shadowed j k name hjk (h.kept j name hc)).trans (h.shadowed j k name hjk hc)

theorem define {name : String} (hname : name ∈ declared) (value : Value) (c : Chain) :
    c.Frame declared targets (c.define name value) where
  depth := c.length_scopes_define name value
  kept k other hc := by
    rw [valueAt?_define]
    split <;> simp [hc]
  gained k other hnone hsome := by
    rw [valueAt?_define] at hsome
    split at hsome
    · next h => exact ⟨h.1, h.2 ▸ hname⟩
    · simp [hnone] at hsome
  untouched k other hdeclared _ := by
    rw [valueAt?_define, if_neg]
    rintro ⟨-, rfl⟩
    exact hdeclared hname
  shadowed j k other hjk _ := by
    rw [valueAt?_define, if_neg]
    rintro ⟨rfl, -⟩
    exact Nat.not_lt_zero j hjk

theorem of_assign? {name : String} (hname : name ∈ targets) {value : Value}
    (h : c.assign? name value = some d) : c.Frame declared targets d := by
  obtain ⟨i, hi, hnearer, hvalue⟩ := valueAt?_of_assign? h
  refine ⟨length_scopes_of_assign? h, fun k other hc ↦ ?_, fun k other hnone hsome ↦ ?_,
    fun k other _ htargets ↦ ?_, fun j k other hjk hc ↦ ?_⟩
  · rw [hvalue]
    split <;> simp [hc]
  · rw [hvalue] at hsome
    split at hsome
    · next h =>
      obtain ⟨rfl, rfl⟩ := h
      simp [hnone] at hi
    · simp [hnone] at hsome
  · rw [hvalue, if_neg]
    rintro ⟨-, rfl⟩
    exact htargets hname
  · rw [hvalue, if_neg]
    -- A scope that is assigned has no nearer one with the name.
    rintro ⟨rfl, rfl⟩
    simp [hnearer j hjk] at hc

end Chain.Frame

/-! ### Runs -/

namespace Evaluation

/-- Wherever the computation begins, it leaves a chain in the frame, also where it fails. -/
def Frames (declared targets : List String) (x : Evaluation α) : Prop :=
  ∀ m, match x.run m with
    | .ok _ m' => m.scopes.Frame declared targets m'.scopes
    | .error _ m' => m.scopes.Frame declared targets m'.scopes

theorem frames_pure (a : α) : Frames declared targets (pure a : Evaluation α) :=
  fun m ↦ .refl _ _ m.scopes

theorem frames_throw (f : Failure) : Frames declared targets (throw f : Evaluation α) :=
  fun m ↦ .refl _ _ m.scopes

theorem frames_note (n : Notice) : Frames declared targets (note n) :=
  fun m ↦ .refl _ _ m.scopes

theorem frames_printLine (text : String) : Frames declared targets (printLine text) :=
  fun m ↦ .refl _ _ m.scopes

theorem Frames.bind {x : Evaluation α} {f : α → Evaluation β} (h : Frames declared targets x)
    (hf : ∀ a, Frames declared targets (f a)) : Frames declared targets (x >>= f) := by
  intro m
  have hx := h m
  rw [EStateM.run_bind]
  cases hrun : x.run m with
  | error g m₁ =>
    rw [hrun] at hx
    exact hx
  | ok a m₁ =>
    rw [hrun] at hx
    have hy := hf a m₁
    dsimp only
    cases hrun' : (f a).run m₁ with
    | error g m₂ =>
      rw [hrun'] at hy
      exact hx.trans hy
    | ok b m₂ =>
      rw [hrun'] at hy
      exact hx.trans hy

theorem frames_failOnMishap (x : Except Mishap α) : Frames declared targets (failOnMishap x) := by
  cases x with
  | ok a => exact frames_pure a
  | error m => exact frames_throw _

theorem frames_get (name : Token) : Frames declared targets (get name) := by
  have hread : Frames declared targets (EStateM.get : Evaluation Machine) :=
    fun m ↦ .refl _ _ m.scopes
  refine hread.bind fun m ↦ ?_
  cases m.scopes.get? name.lexeme with
  | some value => exact frames_pure value
  | none => exact frames_throw _

theorem frames_define {name : Token} (hname : name.lexeme ∈ declared) (value : Value) :
    Frames declared targets (define name value) :=
  fun m ↦ .define hname value m.scopes

theorem frames_assign {name : Token} (hname : name.lexeme ∈ targets) (value : Value) :
    Frames declared targets (assign name value) := by
  intro m
  cases hscopes : m.scopes.assign? name.lexeme value with
  | some scopes =>
    rw [run_assign_of_some hscopes]
    exact .of_assign? hname hscopes
  | none =>
    rw [run_assign_of_none hscopes]
    exact .refl _ _ m.scopes

theorem frames_combine (operator : Token) (left right : Value) :
    Frames declared targets (combine operator left right) := by
  unfold combine
  cases Value.combine operator.kind left right with
  | value v => exact frames_pure v
  | mismatch => exact (frames_note _).bind fun _ ↦ frames_pure _
  | divisionByZero => exact frames_throw _

end Evaluation

open Evaluation

theorem Expr.frames_evaluate {e : Expr} (h : e.targets ⊆ targets) :
    Frames declared targets e.evaluate := by
  induction e with
  | assign name value ih =>
    obtain ⟨hvalue, hname⟩ := List.append_subset.mp h
    refine (ih hvalue).bind fun v ↦ (frames_assign ?_ v).bind fun _ ↦ frames_pure v
    exact hname (List.mem_singleton_self _)
  | binary left operator right ihl ihr =>
    obtain ⟨hleft, hright⟩ := List.append_subset.mp h
    exact (ihl hleft).bind fun l ↦ (ihr hright).bind fun r ↦ frames_combine operator l r
  | grouping inner ih => exact ih h
  | literal value => exact frames_pure value
  | unary operator right ih => exact (ih h).bind fun v ↦ frames_pure _
  | reference name => exact frames_get name
  | foreign node => exact frames_throw _

theorem Stmt.frames_execute {s : Stmt} (hdeclares : s.declares ⊆ declared)
    (htargets : s.targets ⊆ targets) : Frames declared targets s.execute := by
  cases s with
  | print value =>
    refine (Expr.frames_evaluate htargets).bind fun v ↦ ?_
    exact (frames_failOnMishap v.text).bind frames_printLine
  | expression value => exact (Expr.frames_evaluate htargets).bind fun v ↦ frames_pure _
  | var name initial =>
    have hname : name.lexeme ∈ declared := hdeclares (List.mem_singleton_self _)
    cases initial with
    | none => exact frames_define hname .nil
    | some e => exact (Expr.frames_evaluate htargets).bind (frames_define hname)
  | foreign node => exact frames_throw _

theorem frames_executeAll {program : List Stmt}
    (hdeclares : program.flatMap Stmt.declares ⊆ declared)
    (htargets : program.flatMap Stmt.targets ⊆ targets) :
    Frames declared targets (executeAll program) := by
  induction program with
  | nil => exact frames_pure ()
  | cons s program ih =>
    obtain ⟨hs, hdeclares⟩ := List.append_subset.mp hdeclares
    obtain ⟨hs', htargets⟩ := List.append_subset.mp htargets
    exact (Stmt.frames_execute hs hs').bind fun _ ↦ ih hdeclares htargets

/-! ### Runs from chains that answer alike -/

/-- The chains bind the same of the names, and to the same visible values. -/
def Chain.AgreeOn (N : String → Prop) (c c' : Chain) : Prop :=
  ∀ name, N name → c'.get? name = c.get? name

theorem Chain.indistinct_agreeOn (N : String → Prop) : Indistinct N (AgreeOn N) where
  get? h hname := h _ hname
  define {c c' name} value h _ := by
    intro other hother
    rw [get?_define, get?_define, h other hother]
  assign? {c c' name} value h hname := by
    have hbound : (c'.assign? name value).isSome = (c.assign? name value).isSome := by
      rw [isSome_assign?, isSome_assign?, contains, contains, h name hname]
    cases hc : c.assign? name value with
    | none =>
      have hnone : c'.assign? name value = none := by simpa [hc] using hbound
      rw [hnone]
      exact .none
    | some d =>
      obtain ⟨d', hd'⟩ : ∃ d', c'.assign? name value = some d' := by
        simpa [hc, Option.isSome_iff_exists] using hbound
      rw [hd']
      refine .some fun other hother ↦ ?_
      rw [get?_of_assign? hc, get?_of_assign? hd', h other hother]

/-- The name occurs in the program. -/
def Mentioned (program : List Stmt) (name : String) : Prop :=
  ∃ s ∈ program, s.Mentions name

/-- Whether a program completes or fails, it changes the chain only as its declarations and its
assignments allow. From any other chain that answers alike about the names in the program, it prints
the same text and ends alike. -/
theorem frame_executeAll (program : List Stmt) :
    Frames (program.flatMap Stmt.declares) (program.flatMap Stmt.targets) (executeAll program) ∧
    ∀ (m : Machine) (c : Chain), m.scopes.AgreeOn (Mentioned program) c →
      SameEnd (Machine.Over (Chain.AgreeOn (Mentioned program))) Eq Eq
        ((executeAll program).run m) ((executeAll program).run { m with scopes := c }) := by
  refine ⟨frames_executeAll (List.Subset.refl _) (List.Subset.refl _), fun m c hc ↦ ?_⟩
  have hrespects := (Chain.indistinct_agreeOn (Mentioned program)).executeAll
    fun s hs name hname ↦ ⟨s, hs, hname⟩
  exact hrespects m { m with scopes := c } ⟨hc, rfl, rfl⟩

/-- An assignment through a scope that binds another name, and in a single scope. -/
theorem frame_executeAll_of_assignment :
    let x : Token := ⟨.identifier, "x", .nil, 1⟩
    let program : List Stmt := [.print (.assign x (.unary ⟨.minus, "-", .nil, 1⟩ (.reference x)))]
    let m : Machine := .ofScopes (.within (.ofList [("y", .nil)])
      (.globe (.ofList [("x", .integer 1)])))
    let c : Chain := .globe (.ofList [("z", .bool true), ("x", .integer 1)])
    m.scopes.AgreeOn (Mentioned program) c ∧
      SameEnd (Machine.Over (Chain.AgreeOn (Mentioned program))) Eq Eq
        ((executeAll program).run m) ((executeAll program).run { m with scopes := c }) := by
  intro x program m c
  have hagree : m.scopes.AgreeOn (Mentioned program) c := by
    rintro name ⟨s, hs, hname⟩
    obtain rfl := List.mem_singleton.mp hs
    have hx : name = "x" := by
      simpa [Stmt.Mentions, Expr.Mentions, x, eq_comm] using hname
    rw [hx]
    decide
  exact ⟨hagree, (frame_executeAll program).2 m c hagree⟩

end LoxLang
