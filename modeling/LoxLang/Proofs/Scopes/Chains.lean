import LoxLang.Proofs.Scopes.Sharing

/-!
A scope of a forest and the scopes around it are a chain.

The walk of the forest that starts in one scope passes the scopes of its chain (`Forest.Outward`), so
each operation of the forest does what the function of the chain does, with one law for each
(`Forest.ActsAs`). Whatever scopes were created and written, every one of them has its chain
(`exists_chain_performAll`).
-/

set_option autoImplicit false
set_option relaxedAutoImplicit false

namespace LoxLang.Forest

/-- The scopes from scope `i` outwards are the chain `c`. -/
inductive Outward : List Node → Nat → Chain → Prop
  | globe {scope : Scope} {older : List Node} :
    Outward (⟨scope, none⟩ :: older) older.length (.globe scope)
  | within {scope : Scope} {older : List Node} {e : Nat} {outer : Chain} (h : Outward older e outer) :
    Outward (⟨scope, some e⟩ :: older) older.length (.within scope outer)
  | older {node : Node} {older : List Node} {i : Nat} {c : Chain} (hi : older.length ≠ i)
    (h : Outward older i c) : Outward (node :: older) i c

/-- What scope `i` of a forest sees and writes is what the chain `c` sees and writes. -/
structure ActsAs (f : Forest) (i : Nat) (c : Chain) : Prop where
  contains : ∀ name, f.contains i name = c.contains name
  get : ∀ t : Token, f.get i t =
    match c.get? t.lexeme with
    | some value => .ok value
    | none => .error (.undefinedVariable t)
  define : ∀ name value, Outward (f.define i name value).nodes i (c.define name value)
  assign : ∀ (t : Token) (value : Value),
    match c.assign? t.lexeme value with
    | some d => ∃ g, f.assign i t value = .ok g ∧ Outward g.nodes i d
    | none => f.assign i t value = .error (.undefinedVariable t)

namespace Outward

variable {nodes : List Node} {i : Nat} {c : Chain}

theorem containsIn_eq (h : Outward nodes i c) (name : String) :
    containsIn name nodes i = c.contains name := by
  induction h with
  | globe =>
    rw [containsIn, if_pos rfl]
    exact Bool.or_false _
  | within _ ih =>
    rw [containsIn, if_pos rfl, Chain.contains, Chain.get?, Option.isSome_or]
    exact congrArg _ ih
  | older hi _ ih => rw [containsIn, if_neg hi, ih]

theorem getIn_eq (h : Outward nodes i c) (t : Token) :
    getIn t nodes i =
      match c.get? t.lexeme with
      | some value => .ok value
      | none => .error (.undefinedVariable t) := by
  induction h with
  | @globe scope =>
    cases hscope : scope.get? t.lexeme <;> rw [getIn, if_pos rfl, Chain.get?, hscope]
  | @within scope _ _ _ _ ih =>
    cases hscope : scope.get? t.lexeme with
    | some value => rw [getIn, if_pos rfl, Chain.get?, hscope, Option.some_or]
    | none =>
      rw [getIn, if_pos rfl, Chain.get?, hscope, Option.none_or]
      exact ih
  | older hi _ ih => rw [getIn, if_neg hi, ih]

theorem defineIn (h : Outward nodes i c) (name : String) (value : Value) :
    Outward (defineIn name value i nodes) i (c.define name value) := by
  induction h with
  | globe =>
    rw [Forest.defineIn, if_pos rfl]
    exact .globe
  | within h =>
    rw [Forest.defineIn, if_pos rfl]
    exact .within h
  | older hi _ ih =>
    rw [Forest.defineIn, if_neg hi]
    exact .older (by rwa [length_defineIn]) ih

theorem assignIn_of_some (h : Outward nodes i c) {t : Token} {value : Value} {d : Chain}
    (hd : c.assign? t.lexeme value = some d) :
    ∃ written, assignIn t value nodes i = .ok written ∧ written.length = nodes.length ∧
      Outward written i d := by
  induction h generalizing d with
  | @globe scope older =>
    rw [Chain.assign?, Option.ite_none_right_eq_some, Option.some.injEq] at hd
    obtain ⟨hcontains, rfl⟩ := hd
    rw [assignIn, if_pos rfl, if_pos hcontains]
    exact ⟨_, rfl, rfl, .globe⟩
  | @within scope older e outer h ih =>
    rw [Chain.assign?] at hd
    rw [assignIn, if_pos rfl]
    by_cases hcontains : scope.contains t.lexeme = true
    · rw [if_pos hcontains] at hd ⊢
      obtain rfl := Option.some.inj hd
      exact ⟨_, rfl, rfl, .within h⟩
    · rw [if_neg hcontains] at hd ⊢
      obtain ⟨outer', houter, rfl⟩ := Option.map_eq_some_iff.mp hd
      obtain ⟨written, hwritten, hlength, hchain⟩ := ih houter
      refine ⟨⟨scope, some e⟩ :: written, ?_, by simp [hlength], ?_⟩
      · dsimp only
        rw [hwritten]
        rfl
      · rw [← hlength]
        exact .within hchain
  | older hi h ih =>
    obtain ⟨written, hwritten, hlength, hchain⟩ := ih hd
    rw [assignIn, if_neg hi, hwritten]
    exact ⟨_, rfl, by simp [hlength], .older (by rwa [hlength]) hchain⟩

theorem assignIn_of_none (h : Outward nodes i c) {t : Token} {value : Value}
    (hnone : c.assign? t.lexeme value = none) :
    assignIn t value nodes i = .error (.undefinedVariable t) := by
  induction h with
  | @globe scope older =>
    rw [Chain.assign?] at hnone
    rw [assignIn, if_pos rfl]
    split at hnone
    · cases hnone
    · next hcontains => rw [if_neg hcontains]
  | @within scope older e outer h ih =>
    rw [Chain.assign?] at hnone
    rw [assignIn, if_pos rfl]
    split at hnone
    · cases hnone
    · next hcontains =>
      rw [if_neg hcontains]
      dsimp only
      rw [ih (Option.map_eq_none_iff.mp hnone)]
      rfl
  | older hi h ih =>
    rw [assignIn, if_neg hi, ih hnone]
    rfl

end Outward

variable {f : Forest} {i : Nat} {c : Chain}

theorem Outward.actsAs (h : Outward f.nodes i c) : f.ActsAs i c where
  contains := h.containsIn_eq
  get := h.getIn_eq
  define := h.defineIn
  assign t value := by
    cases hd : c.assign? t.lexeme value with
    | some d =>
      obtain ⟨written, hwritten, -, hchain⟩ := h.assignIn_of_some hd
      refine ⟨⟨written⟩, ?_, hchain⟩
      rw [Forest.assign, hwritten]
      rfl
    | none =>
      show f.assign i t value = _
      rw [Forest.assign, h.assignIn_of_none hd]
      rfl

theorem exists_outward {nodes : List Node} (h : Nested ⟨nodes⟩) (hi : i < nodes.length) :
    ∃ c, Outward nodes i c := by
  induction nodes generalizing i with
  | nil => cases hi
  | cons node older ih =>
    by_cases hnewest : older.length = i
    · subst hnewest
      obtain ⟨scope, enclosing⟩ := node
      cases enclosing with
      | none => exact ⟨_, .globe⟩
      | some e =>
        have he : e < older.length := h older.length e (by simp [enclosing?, nodeIn?])
        obtain ⟨outer, houter⟩ := ih h.tail he
        exact ⟨_, .within houter⟩
    · obtain ⟨c, hc⟩ := ih h.tail (Nat.lt_of_le_of_ne (Nat.le_of_lt_succ hi) (Ne.symm hnewest))
      exact ⟨c, .older hnewest hc⟩

/-- Whatever scopes are created, written and looked up, each of them acts as the chain of the scopes
from it outwards. -/
theorem exists_chain_performAll {ops : List Operation} (h : FitAll .empty ops)
    (hi : i < (performAll .empty ops).size) :
    ∃ c, Outward (performAll .empty ops).nodes i c ∧ (performAll .empty ops).ActsAs i c := by
  obtain ⟨c, hc⟩ := exists_outward (nested_performAll nested_empty h) hi
  exact ⟨c, hc, hc.actsAs⟩

end LoxLang.Forest
