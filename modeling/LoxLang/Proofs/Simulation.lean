/-!
Computations that do alike.

Two computations are compared by relations on their states, their failures and their results. They
do alike if from related states both return related results or both fail with related failures,
again in related states (`Simulates`). The relation passes through `>>=`, so for a program it
follows from what its primitive steps do.
-/

set_option autoImplicit false
set_option relaxedAutoImplicit false

namespace LoxLang

variable {ε ε' ε₁ ε₁' σ σ' α α' β β' : Type}

/-- A sequence fails where its first part fails or where its second part does. -/
theorem run_bind_eq_error {x : EStateM ε σ α} {f : α → EStateM ε σ β} {s s' : σ} {e : ε}
    (h : (x >>= f).run s = .error e s') :
    x.run s = .error e s' ∨ ∃ a s₁, x.run s = .ok a s₁ ∧ (f a).run s₁ = .error e s' := by
  rw [EStateM.run_bind] at h
  cases hx : x.run s with
  | ok a s₁ =>
    rw [hx] at h
    exact .inr ⟨a, s₁, rfl, h⟩
  | error e' s₁ =>
    rw [hx] at h
    cases h
    exact .inl rfl

/-- A sequence completes where its first part does and then its second part. -/
theorem run_bind_eq_ok {x : EStateM ε σ α} {f : α → EStateM ε σ β} {s s' : σ} {b : β}
    (h : (x >>= f).run s = .ok b s') :
    ∃ a s₁, x.run s = .ok a s₁ ∧ (f a).run s₁ = .ok b s' := by
  rw [EStateM.run_bind] at h
  cases hx : x.run s with
  | ok a s₁ =>
    rw [hx] at h
    exact ⟨a, s₁, rfl, h⟩
  | error e s₁ =>
    rw [hx] at h
    cases h

/-- Two ends of a computation that are alike. -/
inductive SameEnd (S : σ → σ' → Prop) (F : ε → ε' → Prop) (A : α → α' → Prop) :
    EStateM.Result ε σ α → EStateM.Result ε' σ' α' → Prop
  | ok {a : α} {a' : α'} {s : σ} {s' : σ'} (ha : A a a') (hs : S s s') :
    SameEnd S F A (.ok a s) (.ok a' s')
  | error {e : ε} {e' : ε'} {s : σ} {s' : σ'} (he : F e e') (hs : S s s') :
    SameEnd S F A (.error e s) (.error e' s')

/-- From related states, two computations end alike. -/
def Simulates (S : σ → σ' → Prop) (F : ε → ε' → Prop) (A : α → α' → Prop) (x : EStateM ε σ α)
    (x' : EStateM ε' σ' α') : Prop :=
  ∀ s s', S s s' → SameEnd S F A (x.run s) (x'.run s')

section

variable {S : σ → σ' → Prop} {F : ε → ε' → Prop} {A : α → α' → Prop} {B : β → β' → Prop}

theorem simulates_pure {a : α} {a' : α'} (h : A a a') :
    Simulates S F A (pure a) (pure a') :=
  fun _ _ hs ↦ .ok h hs

theorem simulates_throw {e : ε} {e' : ε'} (h : F e e') :
    Simulates S F A (throw e) (throw e') :=
  fun _ _ hs ↦ .error h hs

theorem simulates_get :
    Simulates S F S (EStateM.get : EStateM ε σ σ) (EStateM.get : EStateM ε' σ' σ') :=
  fun _ _ hs ↦ .ok hs hs

theorem simulates_modify {f : σ → σ} {f' : σ' → σ'} (h : ∀ s s', S s s' → S (f s) (f' s')) :
    Simulates S F Eq (modify f : EStateM ε σ PUnit) (modify f' : EStateM ε' σ' PUnit) :=
  fun s s' hs ↦ .ok rfl (h s s' hs)

theorem Simulates.bind {x : EStateM ε σ α} {x' : EStateM ε' σ' α'} {f : α → EStateM ε σ β}
    {f' : α' → EStateM ε' σ' β'} (h : Simulates S F A x x')
    (hf : ∀ a a', A a a' → Simulates S F B (f a) (f' a')) :
    Simulates S F B (x >>= f) (x' >>= f') := by
  intro s s' hs
  have hend := h s s' hs
  rw [EStateM.run_bind, EStateM.run_bind]
  generalize x.run s = r at hend
  generalize x'.run s' = r' at hend
  cases hend with
  | ok ha hs => exact hf _ _ ha _ _ hs
  | error he hs => exact .error he hs

theorem SameEnd.mono {F' : ε → ε' → Prop} {r : EStateM.Result ε σ α} {r' : EStateM.Result ε' σ' α'}
    (h : SameEnd S F A r r') (hF : ∀ e e', F e e' → F' e e') : SameEnd S F' A r r' := by
  cases h with
  | ok ha hs => exact .ok ha hs
  | error he hs => exact .error (hF _ _ he) hs

theorem Simulates.mono {F' : ε → ε' → Prop} {x : EStateM ε σ α} {x' : EStateM ε' σ' α'}
    (h : Simulates S F A x x') (hF : ∀ e e', F e e' → F' e e') : Simulates S F' A x x' :=
  fun s s' hs ↦ (h s s' hs).mono hF

/-- Failures may be changed in a way that keeps them related. -/
theorem Simulates.adaptExcept {F' : ε₁ → ε₁' → Prop} {g : ε → ε₁} {g' : ε' → ε₁'}
    {x : EStateM ε σ α} {x' : EStateM ε' σ' α'} (h : Simulates S F A x x')
    (hF : ∀ e e', F e e' → F' (g e) (g' e')) :
    Simulates S F' A (x.adaptExcept g) (x'.adaptExcept g') := by
  intro s s' hs
  have hend := h s s' hs
  rw [EStateM.run_adaptExcept, EStateM.run_adaptExcept]
  generalize x.run s = r at hend ⊢
  generalize x'.run s' = r' at hend ⊢
  cases hend with
  | ok ha hs => exact .ok ha hs
  | error he hs => exact .error (hF _ _ he) hs

theorem Simulates.map {x : EStateM ε σ α} {x' : EStateM ε' σ' α'} {f : α → β} {f' : α' → β'}
    (h : Simulates S F A x x') (hf : ∀ a a', A a a' → B (f a) (f' a')) :
    Simulates S F B (f <$> x) (f' <$> x') :=
  h.bind fun a a' ha ↦ simulates_pure (hf a a' ha)

theorem Simulates.discard {x : EStateM ε σ α} {x' : EStateM ε' σ' α'} (h : Simulates S F A x x') :
    Simulates S F Eq (discard x) (discard x') :=
  h.bind fun _ _ _ ↦ simulates_pure rfl

end

/-! ### Equal failures and results -/

section Equal

variable {S : σ → σ → Prop} {x y z : EStateM ε σ α}

theorem SameEnd.symm {r r' : EStateM.Result ε σ α} (hS : Equivalence S)
    (h : SameEnd S Eq Eq r r') : SameEnd S Eq Eq r' r := by
  cases h with
  | ok ha hs => exact .ok ha.symm (hS.symm hs)
  | error he hs => exact .error he.symm (hS.symm hs)

theorem SameEnd.trans {r r' r'' : EStateM.Result ε σ α} (hS : Equivalence S)
    (h : SameEnd S Eq Eq r r') (h' : SameEnd S Eq Eq r' r'') : SameEnd S Eq Eq r r'' := by
  cases h with
  | ok ha hs =>
    cases h' with
    | ok ha' hs' => exact .ok (ha.trans ha') (hS.trans hs hs')
  | error he hs =>
    cases h' with
    | error he' hs' => exact .error (he.trans he') (hS.trans hs hs')

theorem Simulates.symm (hS : Equivalence S) (h : Simulates S Eq Eq x y) : Simulates S Eq Eq y x :=
  fun s s' hs ↦ (h s' s (hS.symm hs)).symm hS

theorem Simulates.trans (hS : Equivalence S) (h : Simulates S Eq Eq x y)
    (h' : Simulates S Eq Eq y z) : Simulates S Eq Eq x z :=
  fun s s' hs ↦ (h s s' hs).trans hS (h' s' s' (hS.refl s'))

end Equal

end LoxLang
