import Mathlib.Order.Filter.AtTopBot.Basic

/-!
Recursions that need not end.

Such a recursion is known by its approximations. Each of them goes down to some depth, and has no
result where that is not enough. Where the recursion ends, all approximations that go deep enough
have one result (`Settles`), and this is the result of the recursion (`ending`).
-/

set_option autoImplicit false
set_option relaxedAutoImplicit false

namespace LoxLang

open Filter

variable {ε σ α β : Type}

/-- All approximations that go deep enough have the result `a`. -/
def Settles (x : Nat → Option α) (a : α) : Prop :=
  ∀ᶠ depth in atTop, x depth = some a

open Classical in
/-- The result of a recursion, if it ends. -/
noncomputable def ending (x : Nat → Option α) : Option α :=
  if h : ∃ a, Settles x a then some h.choose else none

theorem Settles.unique {x : Nat → Option α} {a b : α} (ha : Settles x a) (hb : Settles x b) :
    a = b := by
  obtain ⟨depth, ha, hb⟩ := (ha.and hb).exists
  exact Option.some.inj (ha.symm.trans hb)

theorem ending_eq_some_iff {x : Nat → Option α} {a : α} : ending x = some a ↔ Settles x a := by
  unfold ending
  split
  · next h =>
    have hend : Settles x h.choose := h.choose_spec
    refine ⟨fun heq ↦ ?_, fun ha ↦ congrArg some (hend.unique ha)⟩
    rwa [Option.some.inj heq] at hend
  · next h =>
    refine ⟨fun heq ↦ ?_, fun ha ↦ absurd ⟨a, ha⟩ h⟩
    cases heq

/-- The first approximation does not count. -/
theorem eventually_of_succ {P : Nat → Prop} (h : ∀ᶠ depth in atTop, P (depth + 1)) :
    ∀ᶠ depth in atTop, P depth := by
  rwa [← map_add_atTop_eq_nat 1, eventually_map]

/-- A sequence of computations that need not end. -/
theorem unbounded_bind_apply (x : ExceptT ε (StateT σ Option) α)
    (f : α → ExceptT ε (StateT σ Option) β) (s : σ) : (x >>= f) s = (x s).bind fun
      | (.ok a, s') => f a s'
      | (.error e, s') => some (.error e, s') := by
  show Option.bind (x s) _ = _
  congr 1
  funext ⟨r, s'⟩
  cases r <;> rfl

end LoxLang
