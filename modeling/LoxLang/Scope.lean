import LoxLang.Value

/-!
Scopes, which bind names to values, and chains of scopes, each within the next one outwards.

A chain answers with the nearest binding of a name (`Chain.get?`), defines in its innermost scope and
assigns in the scope that `get?` answers from.
-/

set_option autoImplicit false
set_option relaxedAutoImplicit false

namespace LoxLang

/-- The bindings of one scope, in the order in which their names were first defined. -/
structure Scope where
  bindings : List (String × Value)
  nodup : (bindings.map Prod.fst).Nodup
  deriving DecidableEq, Repr

namespace Scope

/-- Gives the name a new value where it is bound, and binds it last where it is not. -/
def upsert (name : String) (value : Value) : List (String × Value) → List (String × Value)
  | [] => [(name, value)]
  | (n, v) :: bs => if n = name then (n, value) :: bs else (n, v) :: upsert name value bs

theorem map_fst_upsert (name : String) (value : Value) (bs : List (String × Value)) :
    (upsert name value bs).map Prod.fst =
      if name ∈ bs.map Prod.fst then bs.map Prod.fst else bs.map Prod.fst ++ [name] := by
  induction bs with
  | nil => rfl
  | cons b bs ih =>
    obtain ⟨n, v⟩ := b
    by_cases h : n = name
    · simp [upsert, h]
    · have h' : ¬ name = n := fun e => h e.symm
      by_cases hm : name ∈ bs.map Prod.fst <;> simp_all [upsert]

def empty : Scope := ⟨[], .nil⟩

instance : Inhabited Scope := ⟨empty⟩

def get? (s : Scope) (name : String) : Option Value :=
  s.bindings.lookup name

def contains (s : Scope) (name : String) : Bool :=
  (s.get? name).isSome

def define (s : Scope) (name : String) (value : Value) : Scope where
  bindings := upsert name value s.bindings
  nodup := by
    rw [map_fst_upsert]
    split
    · exact s.nodup
    · next h =>
      rw [List.nodup_append]
      refine ⟨s.nodup, by simp, ?_⟩
      rintro a ha b hb rfl
      simp only [List.mem_singleton] at hb
      exact h (hb ▸ ha)

def ofList (bindings : List (String × Value)) : Scope :=
  bindings.foldl (fun s b => s.define b.1 b.2) empty

@[simp]
theorem get?_empty (name : String) : empty.get? name = none := rfl

@[simp]
theorem get?_define (s : Scope) (name other : String) (value : Value) :
    (s.define name value).get? other = if other = name then some value else s.get? other := by
  simp only [get?, define]
  induction s.bindings with
  | nil =>
    by_cases h : other = name
    · simp [upsert, h]
    · simp [upsert, List.lookup_cons, beq_false_of_ne h, h]
  | cons b bs ih =>
    obtain ⟨n, v⟩ := b
    by_cases h : n = name
    · by_cases ho : other = name
      · simp [upsert, h, ho]
      · simp [upsert, List.lookup_cons, h, beq_false_of_ne ho, ho]
    · by_cases hn : other = n
      · simp [upsert, h, hn]
      · simp [upsert, List.lookup_cons, h, beq_false_of_ne hn, ih]

end Scope

/-- The global scope, or a scope within a chain. -/
inductive Chain
  | globe (scope : Scope)
  | within (scope : Scope) (outer : Chain)
  deriving DecidableEq, Repr

namespace Chain

instance : Inhabited Chain := ⟨globe .empty⟩

/-- The scopes from the outermost one inwards. -/
def scopes : Chain → List Scope
  | globe s => [s]
  | within s outer => outer.scopes ++ [s]

/-- The value of a name in the nearest scope that binds it. -/
def get? (name : String) : Chain → Option Value
  | globe s => s.get? name
  | within s outer => (s.get? name).or (outer.get? name)

def contains (name : String) (c : Chain) : Bool :=
  (c.get? name).isSome

/-- Binds a name in the innermost scope. -/
def define (name : String) (value : Value) : Chain → Chain
  | globe s => globe (s.define name value)
  | within s outer => within (s.define name value) outer

/-- Gives a name a new value in the nearest scope that binds it, and never binds it anew. -/
def assign? (name : String) (value : Value) : Chain → Option Chain
  | globe s => if s.contains name then some (globe (s.define name value)) else none
  | within s outer =>
    if s.contains name then some (within (s.define name value) outer)
    else (outer.assign? name value).map (within s)

theorem isSome_assign? (name : String) (value : Value) (c : Chain) :
    (c.assign? name value).isSome = c.contains name := by
  induction c with
  | globe s => cases h : s.contains name <;> simp_all [assign?, contains, get?, Scope.contains]
  | within s outer ih =>
    cases h : s.contains name <;> simp_all [assign?, contains, get?, Scope.contains]

theorem get?_define (name other : String) (value : Value) (c : Chain) :
    (c.define name value).get? other = if other = name then some value else c.get? other := by
  cases c with
  | globe s => simp [define, get?]
  | within s outer => by_cases h : other = name <;> simp [define, get?, h]

theorem get?_of_assign? {name : String} {value : Value} {c d : Chain}
    (h : c.assign? name value = some d) (other : String) :
    d.get? other = if other = name then some value else c.get? other := by
  induction c generalizing d with
  | globe s =>
    simp only [assign?, Option.ite_none_right_eq_some, Option.some.injEq] at h
    obtain ⟨-, rfl⟩ := h
    simp [get?]
  | within s outer ih =>
    simp only [assign?] at h
    split at h
    · obtain rfl := Option.some.inj h
      by_cases ho : other = name <;> simp [get?, ho]
    · next hs =>
      obtain ⟨e, he, rfl⟩ := Option.map_eq_some_iff.mp h
      simp only [get?, ih he]
      by_cases ho : other = name
      · have : s.get? name = none := by simpa [Scope.contains] using hs
        simp [ho, this]
      · simp [ho]

end Chain

end LoxLang
