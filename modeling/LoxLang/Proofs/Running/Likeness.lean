import LoxLang.Evaluation
import LoxLang.Proofs.Likeness
import LoxLang.Proofs.Simulation

/-!
Execution does not look at lines or notices.

Programs that are alike print the same text and leave the same scopes, and they complete or fail
alike (`executeAll_like`).
-/

set_option autoImplicit false
set_option relaxedAutoImplicit false

namespace LoxLang

variable {L : Int → Int → Prop} {α α' : Type}

/-- The same scopes and printed lines. Notices may differ. -/
structure Machine.Like (m m' : Machine) : Prop where
  scopes : m'.scopes = m.scopes
  printed : m'.printed = m.printed

theorem Machine.like_equivalence : Equivalence Machine.Like where
  refl _ := ⟨rfl, rfl⟩
  symm h := ⟨h.scopes.symm, h.printed.symm⟩
  trans h h' := ⟨h'.scopes.trans h.scopes, h'.printed.trans h.printed⟩

namespace Evaluation

/-- On machines that are alike, two computations do alike. -/
abbrev Like (L : Int → Int → Prop) (x x' : Evaluation α) : Prop :=
  Simulates Machine.Like (Failure.Like L) Eq x x'

theorem like_get {t t' : Token} (h : t.Like L t') : Like L (get t) (get t') := by
  refine simulates_get.bind fun m m' hm ↦ ?_
  rw [hm.scopes, h.lexeme]
  cases m.scopes.get? t.lexeme with
  | some value => exact simulates_pure rfl
  | none => exact simulates_throw (.diagnostic (.undefinedVariable h))

theorem like_define {t t' : Token} (h : t.Like L t') (value : Value) :
    Like L (define t value) (define t' value) :=
  simulates_modify fun m m' hm ↦ ⟨by rw [hm.scopes, h.lexeme], hm.printed⟩

theorem like_assign {t t' : Token} (h : t.Like L t') (value : Value) :
    Like L (assign t value) (assign t' value) := by
  refine simulates_get.bind fun m m' hm ↦ ?_
  rw [hm.scopes, h.lexeme]
  cases m.scopes.assign? t.lexeme value with
  | some scopes => exact fun _ _ _ ↦ .ok rfl ⟨rfl, hm.printed⟩
  | none => exact simulates_throw (.diagnostic (.undefinedVariable h))

theorem like_note (n n' : Notice) : Like L (note n) (note n') :=
  simulates_modify fun _ _ hm ↦ ⟨hm.scopes, hm.printed⟩

theorem like_printLine (text : String) : Like L (printLine text) (printLine text) :=
  simulates_modify fun _ _ hm ↦ ⟨hm.scopes, by rw [hm.printed]⟩

theorem like_failOnMishap (x : Except Mishap α) : Like L (failOnMishap x) (failOnMishap x) := by
  cases x with
  | ok a => exact simulates_pure rfl
  | error m => exact simulates_throw (.mishap m)

theorem like_combine {t t' : Token} (h : t.Like L t') (left right : Value) :
    Like L (combine t left right) (combine t' left right) := by
  unfold combine
  rw [h.kind]
  cases Value.combine t.kind left right with
  | value v => exact simulates_pure rfl
  | mismatch => exact (like_note _ _).bind fun _ _ _ ↦ simulates_pure rfl
  | divisionByZero => exact simulates_throw (.diagnostic (.atToken h _))

end Evaluation

open Evaluation

theorem Expr.Like.evaluate {e e' : Expr} (h : e.Like L e') :
    Evaluation.Like L e.evaluate e'.evaluate := by
  induction h with
  | assign ht _ ih =>
    refine ih.bind fun v _ hv ↦ ?_
    subst hv
    exact (like_assign ht v).bind fun _ _ _ ↦ simulates_pure rfl
  | binary _ ht _ ihl ihr =>
    refine ihl.bind fun l _ hl ↦ ihr.bind fun r _ hr ↦ ?_
    subst hl hr
    exact like_combine ht l r
  | grouping _ ih => exact ih
  | literal v => exact simulates_pure rfl
  | unary ht _ ih => exact ih.bind fun v v' hv ↦ simulates_pure (by rw [hv, ht.kind])
  | reference ht => exact like_get ht
  | foreign node => exact simulates_throw (.mishap _)

theorem Stmt.Like.execute {s s' : Stmt} (h : s.Like L s') :
    Evaluation.Like L s.execute s'.execute := by
  cases h with
  | print he =>
    refine he.evaluate.bind fun v _ hv ↦ ?_
    subst hv
    refine (like_failOnMishap v.text).bind fun text _ htext ↦ ?_
    subst htext
    exact like_printLine text
  | expression he => exact he.evaluate.discard
  | var ht he =>
    cases he with
    | none => exact like_define ht .nil
    | some he =>
      refine he.evaluate.bind fun v _ hv ↦ ?_
      subst hv
      exact like_define ht v
  | foreign node => exact simulates_throw (.mishap _)

theorem executeAll_like {ss ss' : List Stmt} (h : List.Forall₂ (Stmt.Like L) ss ss') :
    Evaluation.Like L (executeAll ss) (executeAll ss') := by
  induction h with
  | nil => exact simulates_pure rfl
  | cons hs _ ih => exact hs.execute.bind fun _ _ _ ↦ ih

theorem executeAll_append (ss ss' : List Stmt) :
    executeAll (ss ++ ss') = (do executeAll ss; executeAll ss') := by
  induction ss with
  | nil => rfl
  | cons s ss ih =>
    simp only [List.cons_append, executeAll, ih, bind_assoc]

end LoxLang
