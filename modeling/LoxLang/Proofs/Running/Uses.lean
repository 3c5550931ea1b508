import LoxLang.Proofs.Running.Failures

/-!
Which names are not bound is decided by the text of a program.

The uses of names stand in a program in the order of its execution, each after the declarations of
the statements before it (`usesFrom`). An expression binds no name and unbinds none, so it completes
only if all of its uses are bound, and an unbound name stops it at the first use that is not
(`Expr.seeks_evaluate`). A program therefore fails if one of its uses is not bound, and it fails at
an unbound name only at the first of these uses (`unbound_at_first_use`).
-/

set_option autoImplicit false
set_option relaxedAutoImplicit false

namespace LoxLang

/-! ### Uses of names -/

/-- The names of an expression in the order in which it looks them up. An assigned name comes after
the value. -/
def Expr.uses : Expr → List Token
  | assign name value => value.uses ++ [name]
  | binary left _ right => left.uses ++ right.uses
  | grouping inner => inner.uses
  | literal _ => []
  | unary _ right => right.uses
  | reference name => [name]
  | foreign _ => []

/-- The names that an expression assigns. -/
def Expr.targets : Expr → List String
  | assign name value => value.targets ++ [name.lexeme]
  | binary left _ right => left.targets ++ right.targets
  | grouping inner => inner.targets
  | literal _ => []
  | unary _ right => right.targets
  | reference _ => []
  | foreign _ => []

/-- The expression that a statement evaluates. -/
def Stmt.expression? : Stmt → Option Expr
  | print value => some value
  | expression value => some value
  | var _ initial => initial
  | foreign _ => none

def Stmt.uses (s : Stmt) : List Token :=
  s.expression?.elim [] Expr.uses

def Stmt.targets (s : Stmt) : List String :=
  s.expression?.elim [] Expr.targets

/-- The names that a statement binds, after its expression. -/
def Stmt.declares : Stmt → List String
  | var name _ => [name.lexeme]
  | _ => []

/-- A use of a name, and the names that are declared before it. -/
structure Use where
  name : Token
  declared : List String
  deriving DecidableEq, Repr

/-- The uses of a program in the order of its execution, after declarations of the given names. -/
def usesFrom (declared : List String) : List Stmt → List Use
  | [] => []
  | s :: ss => s.uses.map (⟨·, declared⟩) ++ usesFrom (declared ++ s.declares) ss

/-- The name of a use is bound in the chain in which the program begins, or declared before it. -/
def Use.Bound (c : Chain) (u : Use) : Prop :=
  c.contains u.name.lexeme = true ∨ u.name.lexeme ∈ u.declared

theorem usesFrom_append (declared : List String) (ss ss' : List Stmt) :
    usesFrom declared (ss ++ ss') =
      usesFrom declared ss ++ usesFrom (declared ++ ss.flatMap Stmt.declares) ss' := by
  induction ss generalizing declared with
  | nil => simp [usesFrom]
  | cons s ss ih => simp [usesFrom, ih]

/-! ### Evaluation looks names up in order -/

/-- The diagnostic says of a name that it is not bound. -/
def Diagnostic.IsUnbound (d : Diagnostic) : Prop :=
  ∃ wording, d.cause = .runtime .undefinedVariable wording

/-- Nothing is printed, no name is bound or unbound, and only the targets get new values. -/
structure Machine.Keeps (targets : List String) (m m' : Machine) : Prop where
  printed : m'.printed = m.printed
  contains : ∀ name, m'.scopes.contains name = m.scopes.contains name
  get? : ∀ name, name ∉ targets → m'.scopes.get? name = m.scopes.get? name

theorem Machine.keeps_refl (m : Machine) : m.Keeps [] m :=
  ⟨rfl, fun _ ↦ rfl, fun _ _ ↦ rfl⟩

theorem Machine.Keeps.trans {us vs : List String} {m m' m'' : Machine} (h : m.Keeps us m')
    (h' : m'.Keeps vs m'') : m.Keeps (us ++ vs) m'' where
  printed := h'.printed.trans h.printed
  contains name := (h'.contains name).trans (h.contains name)
  get? name hname := by
    rw [List.mem_append, not_or] at hname
    exact (h'.get? name hname.2).trans (h.get? name hname.1)

theorem Machine.Keeps.mono {us vs : List String} {m m' : Machine} (h : m.Keeps us m')
    (hsub : us ⊆ vs) : m.Keeps vs m' :=
  { h with get? := fun name hname ↦ h.get? name fun hmem ↦ hname (hsub hmem) }

/-- `t` is the first of the uses whose name the machine does not bind. -/
def Machine.FirstUnbound (m : Machine) (uses : List Token) (t : Token) : Prop :=
  ∃ us vs, uses = us ++ t :: vs ∧ (∀ u ∈ us, m.scopes.contains u.lexeme = true) ∧
    ¬ m.scopes.contains t.lexeme = true

namespace Evaluation

variable {α β : Type} {us vs : List Token} {xs ys : List String}

/-- A computation that looks up the names `uses` in order and assigns nothing but `targets`: it
completes only if all of the names are bound, and an unbound name stops it at the first of them that
is not. -/
def Seeks (uses : List Token) (targets : List String) (x : Evaluation α) : Prop :=
  ∀ m, match x.run m with
    | .ok _ m' => m.Keeps targets m' ∧ ∀ t ∈ uses, m.scopes.contains t.lexeme = true
    | .error f m' => m.Keeps targets m' ∧ ∀ d, f = .diagnostic d → d.IsUnbound →
        ∃ t, m.FirstUnbound uses t ∧ d = .undefinedVariable t

theorem seeks_pure (a : α) : Seeks [] [] (pure a : Evaluation α) :=
  fun m ↦ ⟨m.keeps_refl, by simp⟩

theorem Seeks.bind {x : Evaluation α} {f : α → Evaluation β} (h : Seeks us xs x)
    (hf : ∀ a, Seeks vs ys (f a)) : Seeks (us ++ vs) (xs ++ ys) (x >>= f) := by
  intro m
  have hx := h m
  rw [EStateM.run_bind]
  cases hrun : x.run m with
  | error g m₁ =>
    rw [hrun] at hx
    obtain ⟨hkeeps, hfirst⟩ := hx
    refine ⟨hkeeps.mono (List.subset_append_left xs ys), fun d hd hunbound ↦ ?_⟩
    obtain ⟨t, ⟨front, back, rfl, hfront, ht⟩, rfl⟩ := hfirst d hd hunbound
    exact ⟨t, ⟨front, back ++ vs, by simp, hfront, ht⟩, rfl⟩
  | ok a m₁ =>
    rw [hrun] at hx
    obtain ⟨hkeeps, hus⟩ := hx
    have hy := hf a m₁
    dsimp only
    cases hrun' : (f a).run m₁ with
    | error g m₂ =>
      rw [hrun'] at hy
      obtain ⟨hkeeps', hfirst⟩ := hy
      refine ⟨hkeeps.trans hkeeps', fun d hd hunbound ↦ ?_⟩
      obtain ⟨t, ⟨front, back, rfl, hfront, ht⟩, rfl⟩ := hfirst d hd hunbound
      simp only [hkeeps.contains] at hfront ht
      refine ⟨t, ⟨us ++ front, back, by simp, ?_, ht⟩, rfl⟩
      exact List.forall_mem_append.mpr ⟨hus, hfront⟩
    | ok b m₂ =>
      rw [hrun'] at hy
      obtain ⟨hkeeps', hvs⟩ := hy
      simp only [hkeeps.contains] at hvs
      exact ⟨hkeeps.trans hkeeps', List.forall_mem_append.mpr ⟨hus, hvs⟩⟩

theorem Seeks.bind_return {x : Evaluation α} (h : Seeks us xs x) (f : α → β) :
    Seeks us xs (do return f (← x)) := by
  have hbind := h.bind fun a ↦ seeks_pure (f a)
  rwa [List.append_nil, List.append_nil] at hbind

theorem seeks_throw {f : Failure} (h : ∀ d, f = .diagnostic d → ¬ d.IsUnbound) :
    Seeks [] [] (throw f : Evaluation α) :=
  fun m ↦ ⟨m.keeps_refl, fun d hd hunbound ↦ absurd hunbound (h d hd)⟩

theorem run_read (m : Machine) : (EStateM.get : Evaluation Machine).run m = .ok m m := rfl

theorem run_get_of_some {name : Token} {m : Machine} {value : Value}
    (h : m.scopes.get? name.lexeme = some value) : (get name).run m = .ok value m := by
  simp only [get, EStateM.run_bind, run_read, h]
  rfl

theorem run_get_of_none {name : Token} {m : Machine} (h : m.scopes.get? name.lexeme = none) :
    (get name).run m = .error (.diagnostic (.undefinedVariable name)) m := by
  simp only [get, EStateM.run_bind, run_read, h]
  rfl

theorem run_assign_of_some {name : Token} {value : Value} {m : Machine} {c : Chain}
    (h : m.scopes.assign? name.lexeme value = some c) :
    (assign name value).run m = .ok () { m with scopes := c } := by
  simp only [assign, EStateM.run_bind, run_read, h]
  rfl

theorem run_assign_of_none {name : Token} {value : Value} {m : Machine}
    (h : m.scopes.assign? name.lexeme value = none) :
    (assign name value).run m = .error (.diagnostic (.undefinedVariable name)) m := by
  simp only [assign, EStateM.run_bind, run_read, h]
  rfl

theorem seeks_get (name : Token) : Seeks [name] [] (get name) := by
  intro m
  cases hvalue : m.scopes.get? name.lexeme with
  | some value =>
    rw [run_get_of_some hvalue]
    exact ⟨m.keeps_refl, by simp [Chain.contains, hvalue]⟩
  | none =>
    rw [run_get_of_none hvalue]
    have hcontains : ¬ m.scopes.contains name.lexeme = true := by simp [Chain.contains, hvalue]
    refine ⟨m.keeps_refl, fun d hd _ ↦ ⟨name, ⟨[], [], rfl, by simp, hcontains⟩, ?_⟩⟩
    exact (Failure.diagnostic.inj hd).symm

theorem seeks_assign (name : Token) (value : Value) :
    Seeks [name] [name.lexeme] (assign name value) := by
  intro m
  have hbound := Chain.isSome_assign? name.lexeme value m.scopes
  cases hscopes : m.scopes.assign? name.lexeme value with
  | some scopes =>
    rw [run_assign_of_some hscopes]
    rw [hscopes] at hbound
    have hget := Chain.get?_of_assign? hscopes
    refine ⟨⟨rfl, fun other ↦ ?_, fun other hother ↦ ?_⟩, by simpa using hbound.symm⟩
    · by_cases hother : other = name.lexeme
      · rw [hother, ← hbound]
        simp [Chain.contains, hget]
      · simp [Chain.contains, hget, hother]
    · exact (hget other).trans (if_neg (by simpa using hother))
  | none =>
    rw [run_assign_of_none hscopes]
    rw [hscopes] at hbound
    refine ⟨m.keeps_refl.mono (List.nil_subset _), fun d hd _ ↦ ⟨name, ?_, ?_⟩⟩
    · exact ⟨[], [], rfl, by simp, by simp [← hbound]⟩
    · exact (Failure.diagnostic.inj hd).symm

theorem seeks_combine (operator : Token) (left right : Value) :
    Seeks [] [] (combine operator left right) := by
  unfold combine
  cases Value.combine operator.kind left right with
  | value v => exact seeks_pure v
  | mismatch => exact fun m ↦ ⟨⟨rfl, fun _ ↦ rfl, fun _ _ ↦ rfl⟩, by simp⟩
  | divisionByZero =>
    refine seeks_throw fun d hd ⟨wording, hcause⟩ ↦ ?_
    cases hd
    cases hcause

end Evaluation

open Evaluation

/-- An expression looks its names up in the order of its uses. -/
theorem Expr.seeks_evaluate (e : Expr) : Seeks e.uses e.targets e.evaluate := by
  induction e with
  | assign name value ih => exact ih.bind fun v ↦ (seeks_assign name v).bind_return fun _ ↦ v
  | binary left operator right ihl ihr =>
    have hright (l : Value) :
        Seeks right.uses right.targets (do combine operator l (← right.evaluate)) := by
      have hbind := ihr.bind (seeks_combine operator l)
      rwa [List.append_nil, List.append_nil] at hbind
    exact ihl.bind hright
  | grouping inner ih => exact ih
  | literal value => exact seeks_pure value
  | unary operator right ih => exact ih.bind_return _
  | reference name => exact seeks_get name
  | foreign node => exact seeks_throw fun d hd ↦ by cases hd

/-! ### Statements and programs -/

variable {m m' : Machine} {f : Failure} {s : Stmt} {c : Chain} {declared : List String}

theorem Expr.evaluate_ok {e : Expr} {v : Value} (h : e.evaluate.run m = .ok v m') :
    m.Keeps e.targets m' ∧ ∀ t ∈ e.uses, m.scopes.contains t.lexeme = true := by
  have hseeks := e.seeks_evaluate m
  rwa [h] at hseeks

theorem Expr.evaluate_error {e : Expr} (h : e.evaluate.run m = .error f m') :
    m.Keeps e.targets m' ∧ ∀ d, f = .diagnostic d → d.IsUnbound →
      ∃ t, m.FirstUnbound e.uses t ∧ d = .undefinedVariable t := by
  have hseeks := e.seeks_evaluate m
  rwa [h] at hseeks

theorem Chain.contains_define (name other : String) (value : Value) (c : Chain) :
    (c.define name value).contains other = true ↔ c.contains other = true ∨ other = name := by
  rw [contains, contains, get?_define]
  by_cases h : other = name <;> simp [h]

/-- A statement that completes has only bound uses, and then it binds what it declares. -/
theorem Stmt.execute_ok {u : Unit} (h : s.execute.run m = .ok u m') :
    (∀ t ∈ s.uses, m.scopes.contains t.lexeme = true) ∧
      ∀ name, m'.scopes.contains name = true ↔
        m.scopes.contains name = true ∨ name ∈ s.declares := by
  cases s with
  | print value =>
    obtain ⟨v, m₁, hv, h⟩ := run_bind_eq_ok h
    obtain ⟨hkeeps, huses⟩ := Expr.evaluate_ok hv
    obtain ⟨text, m₂, htext, h⟩ := run_bind_eq_ok h
    obtain rfl : m₁ = m₂ := by
      cases hvalue : v.text with
      | ok text =>
        rw [hvalue] at htext
        cases htext
        rfl
      | error mishap =>
        rw [hvalue] at htext
        cases htext
    cases h
    exact ⟨huses, fun name ↦ by simp [hkeeps.contains, declares]⟩
  | expression value =>
    obtain ⟨v, m₁, hv, h⟩ := run_bind_eq_ok h
    obtain ⟨hkeeps, huses⟩ := Expr.evaluate_ok hv
    cases h
    exact ⟨huses, fun name ↦ by simp [hkeeps.contains, declares]⟩
  | var target initial =>
    cases initial with
    | none =>
      cases h
      exact ⟨by simp [uses, expression?], fun name ↦ by simp [Chain.contains_define, declares]⟩
    | some e =>
      obtain ⟨v, m₁, hv, h⟩ := run_bind_eq_ok h
      obtain ⟨hkeeps, huses⟩ := Expr.evaluate_ok hv
      cases h
      refine ⟨huses, fun name ↦ ?_⟩
      simp [Chain.contains_define, hkeeps.contains, declares]
  | foreign node => cases h

/-- A statement that fails has printed nothing and bound nothing, and it fails at an unbound name only
at the first of its uses that is not bound. -/
theorem Stmt.execute_error (h : s.execute.run m = .error f m') :
    m.Keeps s.targets m' ∧ ∀ d, f = .diagnostic d → d.IsUnbound →
      ∃ t, m.FirstUnbound s.uses t ∧ d = .undefinedVariable t := by
  cases s with
  | print value =>
    rcases run_bind_eq_error h with h | ⟨v, m₁, hv, h⟩
    · exact Expr.evaluate_error h
    · rcases run_bind_eq_error h with h | ⟨_, _, -, h⟩
      · obtain ⟨n, -, rfl, -, rfl⟩ := failOnMishap_text_eq_error h
        exact ⟨(Expr.evaluate_ok hv).1, fun d hd ↦ by cases hd⟩
      · cases h
  | expression value =>
    rcases run_bind_eq_error h with h | ⟨_, _, -, h⟩
    · exact Expr.evaluate_error h
    · cases h
  | var target initial =>
    cases initial with
    | none => cases h
    | some e =>
      rcases run_bind_eq_error h with h | ⟨_, _, -, h⟩
      · exact Expr.evaluate_error h
      · cases h
  | foreign node =>
    cases h
    exact ⟨m.keeps_refl, fun d hd ↦ by cases hd⟩

/-- The machine binds the names of the chain and those that are declared. -/
def Machine.Binds (c : Chain) (declared : List String) (m : Machine) : Prop :=
  ∀ name, m.scopes.contains name = true ↔ c.contains name = true ∨ name ∈ declared

theorem Machine.Binds.bound_iff (h : m.Binds c declared) (t : Token) :
    Use.Bound c ⟨t, declared⟩ ↔ m.scopes.contains t.lexeme = true :=
  (h t.lexeme).symm

theorem Machine.Binds.forall_uses (h : m.Binds c declared) {ts : List Token}
    (hts : ∀ t ∈ ts, m.scopes.contains t.lexeme = true) :
    ∀ u ∈ ts.map fun t ↦ (⟨t, declared⟩ : Use), u.Bound c :=
  List.forall_mem_map.mpr fun t ht ↦ (h.bound_iff t).mpr (hts t ht)

/-- A program that completes has only bound uses, and it binds what it declares. -/
theorem executeAll_ok {ss : List Stmt} {u : Unit} (hm : m.Binds c declared)
    (h : (executeAll ss).run m = .ok u m') :
    (∀ use ∈ usesFrom declared ss, use.Bound c) ∧
      m'.Binds c (declared ++ ss.flatMap Stmt.declares) := by
  induction ss generalizing m declared with
  | nil =>
    cases h
    exact ⟨by simp [usesFrom], by simpa using hm⟩
  | cons s ss ih =>
    obtain ⟨_, m₁, hs, h⟩ := run_bind_eq_ok h
    obtain ⟨huses, hbinds⟩ := s.execute_ok hs
    have hm₁ : m₁.Binds c (declared ++ s.declares) := by
      intro name
      rw [hbinds, hm name, List.mem_append, or_assoc]
    obtain ⟨hrest, hlast⟩ := ih hm₁ h
    refine ⟨List.forall_mem_append.mpr ⟨hm.forall_uses huses, hrest⟩, ?_⟩
    rwa [List.flatMap_cons, ← List.append_assoc]

/-- A program that fails at an unbound name fails at the first use that is not bound. -/
theorem first_of_executeAll {done : List Stmt} {m₁ : Machine} {u : Unit} {d : Diagnostic}
    (hdone : (executeAll done).run m = .ok u m₁) (rest : List Stmt)
    (hs : s.execute.run m₁ = .error (.diagnostic d) m') (hunbound : d.IsUnbound) :
    ∃ before t after, usesFrom [] (done ++ s :: rest) =
        before ++ ⟨t, done.flatMap Stmt.declares⟩ :: after ∧
      (∀ use ∈ before, use.Bound m.scopes) ∧
      ¬ Use.Bound m.scopes ⟨t, done.flatMap Stmt.declares⟩ ∧ t ∈ s.uses ∧
      d = .undefinedVariable t := by
  have hm : m.Binds m.scopes [] := fun name ↦ by simp
  obtain ⟨hbefore, hbinds⟩ := executeAll_ok hm hdone
  rw [List.nil_append] at hbinds
  obtain ⟨t, ⟨us, vs, huses, hus, ht⟩, rfl⟩ := (s.execute_error hs).2 d rfl hunbound
  refine ⟨usesFrom [] done ++ us.map (⟨·, done.flatMap Stmt.declares⟩), t,
    vs.map (⟨·, done.flatMap Stmt.declares⟩) ++
      usesFrom (done.flatMap Stmt.declares ++ s.declares) rest, ?_, ?_, ?_, by simp [huses], rfl⟩
  · rw [usesFrom_append, List.nil_append, usesFrom, huses]
    simp
  · exact List.forall_mem_append.mpr ⟨hbefore, hbinds.forall_uses hus⟩
  · rwa [hbinds.bound_iff]

/-- Where every use of a program is bound in the chain or declared before it, no run of the program
fails at an unbound name. Otherwise every run fails. Then the statements before the one that fails
have completed, and what they printed and bound is kept; and if it fails at an unbound name, that is
the first use that is not bound. -/
theorem unbound_at_first_use (m : Machine) (program : List Stmt) :
    ((∀ use ∈ usesFrom [] program, use.Bound m.scopes) →
      ∀ d m', (executeAll program).run m = .error (.diagnostic d) m' → ¬ d.IsUnbound) ∧
    ∀ before use after, usesFrom [] program = before ++ use :: after →
      (∀ other ∈ before, other.Bound m.scopes) → ¬ use.Bound m.scopes →
      ∃ f m', (executeAll program).run m = .error f m' ∧
        ∃ done s rest m₁, program = done ++ s :: rest ∧
          (executeAll done).run m = .ok () m₁ ∧ s.execute.run m₁ = .error f m' ∧
          m₁.Keeps s.targets m' ∧
          ∀ d, f = .diagnostic d → d.IsUnbound → d = .undefinedVariable use.name ∧
            use.name ∈ s.uses ∧ use.declared = done.flatMap Stmt.declares := by
  constructor
  · intro hall d m' hrun hunbound
    obtain ⟨done, s, rest, m₁, rfl, hdone, hs⟩ := executeAll_eq_error hrun
    obtain ⟨before, t, after, heq, -, ht, -, -⟩ := first_of_executeAll hdone rest hs hunbound
    exact ht (hall _ (by simp [heq]))
  · intro before use after heq hbefore huse
    cases hrun : (executeAll program).run m with
    | ok u m' =>
      have hm : m.Binds m.scopes [] := fun name ↦ by simp
      exact absurd ((executeAll_ok hm hrun).1 use (by simp [heq])) huse
    | error f m' =>
      obtain ⟨done, s, rest, m₁, rfl, hdone, hs⟩ := executeAll_eq_error hrun
      refine ⟨f, m', rfl, done, s, rest, m₁, rfl, hdone, hs, (s.execute_error hs).1, ?_⟩
      rintro d rfl hunbound
      obtain ⟨before', t, after', heq', hbefore', ht, hmem, rfl⟩ :=
        first_of_executeAll hdone rest hs hunbound
      obtain ⟨-, rfl⟩ := eq_of_first_not (heq.symm.trans heq') hbefore hbefore' huse ht
      exact ⟨rfl, hmem, rfl⟩

end LoxLang
