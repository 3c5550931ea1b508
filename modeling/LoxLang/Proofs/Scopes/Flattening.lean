import LoxLang.Proofs.Scopes.Indistinct

/-!
A chain of scopes and the one scope that it amounts to.

The flat scope of a chain gives each name the value that the nearest scope gives it
(`Chain.get?_flatten`). A definition writes the innermost scope and an assignment the nearest one
that binds the name, and both write the flat scope in the same way, whatever is shadowed. So
programs, and texts that are run one after another, do alike on a chain and on its flat scope
(`flatten_indistinct`).
-/

set_option autoImplicit false
set_option relaxedAutoImplicit false

namespace LoxLang

/-! ### The flat scope of a chain -/

/-- The bindings of a scope laid over those of another one. -/
def Scope.laidOver (inner outer : Scope) : Scope :=
  inner.bindings.foldl (fun s b ↦ s.define b.1 b.2) outer

/-- The scope that binds each name as the nearest scope of the chain does. -/
def Chain.flatten : Chain → Scope
  | globe s => s
  | within s outer => s.laidOver outer.flatten

theorem Scope.get?_foldl_define {bindings : List (String × Value)}
    (hnodup : (bindings.map Prod.fst).Nodup) (s : Scope) (name : String) :
    (bindings.foldl (fun s b ↦ s.define b.1 b.2) s).get? name =
      (bindings.lookup name).or (s.get? name) := by
  induction bindings generalizing s with
  | nil => rfl
  | cons b bindings ih =>
    obtain ⟨hb, hbindings⟩ := List.nodup_cons.mp hnodup
    rw [List.foldl_cons, ih hbindings, Scope.get?_define, List.lookup_cons]
    by_cases hname : name = b.1
    · -- The later bindings do not bind the name again.
      have hlater : bindings.lookup name = none := by
        rw [List.lookup_eq_none_iff]
        intro later hmem
        rw [hname, bne_iff_ne]
        intro heq
        exact hb (heq ▸ List.mem_map_of_mem hmem)
      simp [hname ▸ hlater, hname]
    · simp [hname, beq_false_of_ne hname]

theorem Scope.get?_laidOver (inner outer : Scope) (name : String) :
    (inner.laidOver outer).get? name = (inner.get? name).or (outer.get? name) :=
  get?_foldl_define inner.nodup outer name

/-- The flat scope answers as the chain does. -/
theorem Chain.get?_flatten (c : Chain) (name : String) : c.flatten.get? name = c.get? name := by
  induction c with
  | globe s => rfl
  | within s outer ih => rw [flatten, Scope.get?_laidOver, ih, get?]

/-! ### Programs on a chain and on its flat scope -/

/-- `flat` is a single scope with the bindings of the flat scope of `c`, in any order. -/
def Chain.FlattensTo (c flat : Chain) : Prop :=
  ∃ s, flat = globe s ∧ ∀ name, s.get? name = c.flatten.get? name

theorem Chain.flattensTo_flatten (c : Chain) : c.FlattensTo (globe c.flatten) :=
  ⟨c.flatten, rfl, fun _ ↦ rfl⟩

theorem Chain.FlattensTo.get?_eq {c flat : Chain} (h : c.FlattensTo flat) (name : String) :
    flat.get? name = c.get? name := by
  obtain ⟨s, rfl, hs⟩ := h
  exact (hs name).trans (c.get?_flatten name)

/-- A single scope that answers as a chain does has the bindings of its flat scope. -/
theorem Chain.flattensTo_of_get?_eq {c : Chain} {s : Scope}
    (h : ∀ name, s.get? name = c.get? name) : c.FlattensTo (globe s) :=
  ⟨s, rfl, fun name ↦ (h name).trans (c.get?_flatten name).symm⟩

theorem Chain.FlattensTo.define {c flat : Chain} (h : c.FlattensTo flat) (name : String)
    (value : Value) : (c.define name value).FlattensTo (flat.define name value) := by
  obtain ⟨s, rfl, hs⟩ := h
  apply flattensTo_of_get?_eq
  intro other
  rw [Scope.get?_define, Chain.get?_define, hs, get?_flatten]

/-- An assignment finds a scope to write in the one if it finds one in the other. -/
theorem Chain.FlattensTo.assign? {c flat : Chain} (h : c.FlattensTo flat) (name : String)
    (value : Value) :
    Option.Rel FlattensTo (c.assign? name value) (flat.assign? name value) := by
  have hbound : (flat.assign? name value).isSome = (c.assign? name value).isSome := by
    rw [isSome_assign?, isSome_assign?, contains, contains, h.get?_eq]
  obtain ⟨s, rfl, hs⟩ := h
  cases hc : c.assign? name value with
  | none =>
    have hnone : (globe s).assign? name value = none := by simpa [hc] using hbound
    rw [hnone]
    exact .none
  | some d =>
    have hs' : s.contains name = true := by
      have hcontains := isSome_assign? name value (globe s)
      rw [hbound, hc] at hcontains
      exact hcontains.symm
    rw [Chain.assign?, if_pos hs']
    refine .some (flattensTo_of_get?_eq fun other ↦ ?_)
    rw [Scope.get?_define, get?_of_assign? hc, hs, get?_flatten]

theorem Chain.indistinct_flattensTo : Indistinct (fun _ ↦ True) FlattensTo where
  get? h _ := h.get?_eq _
  define value h _ := h.define _ value
  assign? value h _ := h.assign? _ value

/-- The machine with the flat scope of its chain for its only scope. -/
def Machine.flatten (m : Machine) : Machine :=
  { m with scopes := .globe m.scopes.flatten }

/-- Machines that have printed the same, the second one with a single scope whose bindings are those
of the flat scope of the first one's chain. -/
abbrev Machine.FlattensTo : Machine → Machine → Prop :=
  Machine.Over Chain.FlattensTo

theorem Machine.flattensTo_flatten (m : Machine) : m.FlattensTo m.flatten :=
  ⟨m.scopes.flattensTo_flatten, rfl, rfl⟩

/-! ### One run after another -/

namespace Evaluation

/-- What computations in turn come to, each on the machine that the ones before it left, whether
they completed or not: how each of them ended, and the last machine. -/
def inTurn : List (Evaluation Unit) → Machine → List (Except Failure Unit) × Machine
  | [], m => ([], m)
  | x :: xs, m =>
    let (ending, m) : Except Failure Unit × Machine :=
      match x.run m with
      | .ok a m => (.ok a, m)
      | .error f m => (.error f, m)
    let (endings, m) := inTurn xs m
    (ending :: endings, m)

/-- Computations that do alike on related machines do alike in turn. -/
theorem inTurn_alike {S : Chain → Chain → Prop} {xs : List (Evaluation Unit)}
    (h : ∀ x ∈ xs, Chain.Indistinct.Respects S x) {m m' : Machine} (hm : m.Over S m') :
    (inTurn xs m').1 = (inTurn xs m).1 ∧ (inTurn xs m).2.Over S (inTurn xs m').2 := by
  induction xs generalizing m m' with
  | nil => exact ⟨rfl, hm⟩
  | cons x xs ih =>
    obtain ⟨hx, hxs⟩ := List.forall_mem_cons.mp h
    have hend := hx m m' hm
    unfold inTurn
    generalize x.run m = r at hend
    generalize x.run m' = r' at hend
    cases hend with
    | ok ha hs =>
      obtain ⟨hendings, hlast⟩ := ih hxs hs
      exact ⟨by simp only [ha, hendings], hlast⟩
    | error he hs =>
      obtain ⟨hendings, hlast⟩ := ih hxs hs
      exact ⟨by simp only [he, hendings], hlast⟩

end Evaluation

open Evaluation

/-- On a chain and on its flat scope, a program ends in the same way and prints the same text, also
where it fails, and the flat scope of the chain that it leaves has the bindings of the scope that it
leaves. The same holds for programs and for source texts that are run one after another. -/
theorem flatten_indistinct (m : Machine) :
    (∀ program, SameEnd Machine.FlattensTo Eq Eq ((executeAll program).run m)
      ((executeAll program).run m.flatten)) ∧
    (∀ programs : List (List Stmt),
      (inTurn (programs.map executeAll) m.flatten).1 = (inTurn (programs.map executeAll) m).1 ∧
      (inTurn (programs.map executeAll) m).2.FlattensTo
        (inTurn (programs.map executeAll) m.flatten).2) ∧
    ∀ sources : List String,
      (inTurn (sources.map run) m.flatten).1 = (inTurn (sources.map run) m).1 ∧
      (inTurn (sources.map run) m).2.FlattensTo (inTurn (sources.map run) m.flatten).2 := by
  have hprogram (program : List Stmt) :
      Chain.Indistinct.Respects Chain.FlattensTo (executeAll program) :=
    Chain.indistinct_flattensTo.executeAll fun _ _ _ _ ↦ trivial
  have hflat := m.flattensTo_flatten
  refine ⟨fun program ↦ hprogram program m m.flatten hflat, fun programs ↦ ?_, fun sources ↦ ?_⟩
  · refine inTurn_alike (fun x hx ↦ ?_) hflat
    obtain ⟨program, -, rfl⟩ := List.mem_map.mp hx
    exact hprogram program
  · refine inTurn_alike (fun x hx ↦ ?_) hflat
    obtain ⟨source, -, rfl⟩ := List.mem_map.mp hx
    exact Chain.indistinct_flattensTo.run source

/-- An assignment reaches through an inner scope to the outer one, unless the inner one binds the
name as well. -/
example :
    (inTurn (["x = 3; var x = 4; x = 5;", "print x / 0;"].map run)
      (.ofScopes (.within .empty (.globe (.ofList [("x", .integer 1)]))))).2.scopes =
        .within (.ofList [("x", .integer 5)]) (.globe (.ofList [("x", .integer 3)])) := by
  decide +kernel

end LoxLang
