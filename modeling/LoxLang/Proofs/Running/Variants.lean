import LoxLang.Proofs.Running.Failures
import LoxLang.Proofs.Running.Uses
import Mathlib.Data.List.Forall2

/-!
Variants do not depend on values.

What variant an operator gives is a function of the variants of its operands (`Variant.unary`,
`Variant.binary?`), and so are the notices that it leaves. Two runs from chains that bind the same
names to values of the same variants therefore stay alike in this (`Evaluation.Parallel`), step by
step, until one of them divides by zero or prints a number that is too long. No other failure is a
matter of values. A run prints the values of its print statements (`prints_of_ok`), so the printed
values have the same variants, too (`executeAll_parallel`).
-/

set_option autoImplicit false
set_option relaxedAutoImplicit false

namespace LoxLang

variable {α α' β β' : Type} {v v' l l' r r' : Value} {s s' : Scope} {c c' : Chain}
  {m m' n n' : Machine}

/-! ### The variants of results -/

/-- The variant that an operator gives on two numbers of the variant `numeric`. -/
def Variant.arithmetic (operator : Token.Kind) (numeric : Variant) : Variant :=
  match operator with
  | .plus | .minus | .star | .slash => numeric
  | .greater | .greaterEqual | .less | .lessEqual => .bool
  | _ => .none

def Variant.unary (operator : Token.Kind) (right : Variant) : Variant :=
  match operator, right with
  | .bang, _ => .bool
  | .minus, .integer => .integer
  | .minus, .float => .float
  | _, _ => .none

/-- The variant of what two operands are combined to, unless they do not suit the operator. -/
def Variant.binary? (operator : Token.Kind) (left right : Variant) : Option Variant :=
  if operator = .equalEqual ∨ operator = .bangEqual then some .bool
  else
    match left, right with
    | .string, .string => if operator = .plus then some .string else .none
    | .integer, .integer => some (arithmetic operator .integer)
    | .float, .float => some (arithmetic operator .float)
    | _, _ => .none

theorem Value.variant_unary (operator : Token.Kind) (v : Value) :
    (unary operator v).variant = .unary operator v.variant := by
  cases operator <;> cases v <;> rfl

theorem Value.variant_combineFloats (operator : Token.Kind) (x y : Float) :
    (combineFloats operator x y).variant = .arithmetic operator .float := by
  cases operator <;> rfl

theorem Value.combineIntegers_cases (operator : Token.Kind) (a b : Int) :
    (∃ v, combineIntegers operator a b = .value v ∧ v.variant = .arithmetic operator .integer) ∨
      combineIntegers operator a b = .divisionByZero := by
  cases operator with
  | slash =>
    by_cases hb : b = 0
    · exact .inr (if_pos hb)
    · exact .inl ⟨_, if_neg hb, rfl⟩
  | _ => exact .inl ⟨_, rfl, rfl⟩

/-- How two operands are combined shows in their variants, but for a division by zero. -/
theorem Value.combine_cases (operator : Token.Kind) (l r : Value) :
    (∃ v, combine operator l r = .value v ∧
      Variant.binary? operator l.variant r.variant = some v.variant) ∨
    (combine operator l r = .mismatch ∧ Variant.binary? operator l.variant r.variant = none) ∨
    combine operator l r = .divisionByZero := by
  unfold combine
  split
  · exact .inl ⟨_, rfl, rfl⟩
  · exact .inl ⟨_, rfl, rfl⟩
  · next heq hne =>
    have hother : ¬ (operator = .equalEqual ∨ operator = .bangEqual) := fun h ↦ h.elim heq hne
    split
    · exact .inl ⟨_, rfl, rfl⟩
    · next a b =>
      rcases combineIntegers_cases operator a b with ⟨v, hv, hvariant⟩ | hzero
      · exact .inl ⟨v, hv, (if_neg hother).trans (congrArg some hvariant.symm)⟩
      · exact .inr (.inr hzero)
    · next x y =>
      have hvariant := variant_combineFloats operator x y
      exact .inl ⟨_, rfl, (if_neg hother).trans (congrArg some hvariant.symm)⟩
    · refine .inr (.inl ⟨rfl, (if_neg hother).trans ?_⟩)
      cases l <;> cases r <;> simp_all [variant]

theorem Value.text_eq_error {mishap : Mishap} (h : v.text = .error mishap) :
    mishap = .integerTooLong := by
  cases v with
  | integer n => exact (integerText_eq_error_iff.mp h).1
  | nil | bool | float | string => cases h

/-! ### Chains with the same variants -/

/-- The scopes bind the same names, to values of the same variants. -/
def Scope.SameVariants (s s' : Scope) : Prop :=
  ∀ name, (s'.get? name).map Value.variant = (s.get? name).map Value.variant

/-- The chains have the same shape, and each scope has the same variants in both. -/
inductive Chain.SameVariants : Chain → Chain → Prop
  | globe {s s' : Scope} (h : s.SameVariants s') : SameVariants (globe s) (globe s')
  | within {s s' : Scope} {c c' : Chain} (h : s.SameVariants s') (houter : SameVariants c c') :
    SameVariants (within s c) (within s' c')

theorem Scope.SameVariants.define (h : s.SameVariants s') (hv : v'.variant = v.variant)
    (name : String) : (s.define name v).SameVariants (s'.define name v') := by
  intro other
  rw [get?_define, get?_define]
  split
  · simp [hv]
  · exact h other

theorem Scope.SameVariants.contains_eq (h : s.SameVariants s') (name : String) :
    s'.contains name = s.contains name := by
  simpa [contains] using congrArg Option.isSome (h name)

theorem Chain.SameVariants.get? (h : c.SameVariants c') (name : String) :
    (c'.get? name).map Value.variant = (c.get? name).map Value.variant := by
  induction h with
  | globe h => exact h name
  | within h _ ih => rw [Chain.get?, Chain.get?, Option.map_or, Option.map_or, h name, ih]

theorem Chain.SameVariants.define (h : c.SameVariants c') (hv : v'.variant = v.variant)
    (name : String) : (c.define name v).SameVariants (c'.define name v') := by
  cases h with
  | globe h => exact .globe (h.define hv name)
  | within h houter => exact .within (h.define hv name) houter

theorem Chain.SameVariants.assign? (h : c.SameVariants c') (hv : v'.variant = v.variant)
    (name : String) :
    Option.Rel SameVariants (c.assign? name v) (c'.assign? name v') := by
  induction h with
  | globe h =>
    rw [Chain.assign?, Chain.assign?, h.contains_eq]
    split
    · exact .some (.globe (h.define hv name))
    · exact .none
  | @within s s' c c' h houter ih =>
    rw [Chain.assign?, Chain.assign?, h.contains_eq]
    split
    · exact .some (.within (h.define hv name) houter)
    · generalize c.assign? name v = found at ih
      generalize c'.assign? name v' = found' at ih
      cases ih with
      | none => exact .none
      | some hd => exact .some (.within h hd)

/-! ### Runs in parallel -/

/-- The variants of all bindings are the same, and as many lines were printed. -/
structure Machine.SameVariants (m m' : Machine) : Prop where
  scopes : m.scopes.SameVariants m'.scopes
  printed : m'.printed.length = m.printed.length
  notices : m'.notices = m.notices

/-- The failures that are a matter of values. -/
inductive Failure.OfValue : Failure → Prop
  | divisionByZero (operator : Token) : OfValue (.diagnostic (.divisionByZero operator))
  | integerTooLong : OfValue (.mishap .integerTooLong)

namespace Evaluation

/-- Ends of two runs of which at most the values differ. Where both runs fail, they need not fail at
the same place. -/
inductive SameVariants (A : α → α' → Prop) :
    EStateM.Result Failure Machine α → EStateM.Result Failure Machine α' → Prop
  | ok {a : α} {a' : α'} {m m' : Machine} (ha : A a a') (hm : m.SameVariants m') :
    SameVariants A (.ok a m) (.ok a' m')
  | left {f : Failure} {a' : α'} {m m' : Machine} (hf : f.OfValue) :
    SameVariants A (.error f m) (.ok a' m')
  | right {f : Failure} {a : α} {m m' : Machine} (hf : f.OfValue) :
    SameVariants A (.ok a m) (.error f m')
  | both {f f' : Failure} {m m' : Machine} : SameVariants A (.error f m) (.error f' m')

/-- From machines with the same variants, the computations end with the same variants. -/
def Parallel (A : α → α' → Prop) (x : Evaluation α) (x' : Evaluation α') : Prop :=
  ∀ m m', m.SameVariants m' → SameVariants A (x.run m) (x'.run m')

variable {A : α → α' → Prop} {B : β → β' → Prop} {x : Evaluation α} {x' : Evaluation α'}

theorem parallel_pure {a : α} {a' : α'} (h : A a a') : Parallel A (pure a) (pure a') :=
  fun _ _ hm ↦ .ok h hm

theorem parallel_throw (f f' : Failure) :
    Parallel A (throw f : Evaluation α) (throw f' : Evaluation α') :=
  fun _ _ _ ↦ .both

theorem Parallel.bind {f : α → Evaluation β} {f' : α' → Evaluation β'} (h : Parallel A x x')
    (hf : ∀ a a', A a a' → Parallel B (f a) (f' a')) : Parallel B (x >>= f) (x' >>= f') := by
  intro m m' hm
  have hend := h m m' hm
  rw [EStateM.run_bind, EStateM.run_bind]
  generalize x.run m = r at hend
  generalize x'.run m' = r' at hend
  cases hend with
  | ok ha hm => exact hf _ _ ha _ _ hm
  | both => exact .both
  -- One of the runs has failed over a value, however the other one goes on.
  | @left _ a' _ m' hvalue =>
    dsimp only
    cases (f' a').run m' with
    | ok => exact .left hvalue
    | error => exact .both
  | @right _ a m _ hvalue =>
    dsimp only
    cases (f a).run m with
    | ok => exact .right hvalue
    | error => exact .both

/-- Values of the same variant. -/
abbrev SameVariant (v v' : Value) : Prop :=
  v'.variant = v.variant

theorem parallel_note (n : Notice) : Parallel Eq (note n) (note n) :=
  fun _ _ hm ↦ .ok rfl ⟨hm.scopes, hm.printed, congrArg (List.cons n) hm.notices⟩

theorem parallel_printLine (line line' : String) :
    Parallel Eq (printLine line) (printLine line') :=
  fun _ _ hm ↦ .ok rfl ⟨hm.scopes, congrArg Nat.succ hm.printed, hm.notices⟩

/-- Of two values, one may be a number that is too long. -/
theorem parallel_text (v v' : Value) :
    Parallel (fun _ _ ↦ True) (failOnMishap v.text) (failOnMishap v'.text) := by
  intro m m' hm
  cases htext : v.text with
  | ok line =>
    cases htext' : v'.text with
    | ok line' => exact .ok trivial hm
    | error mishap' =>
      obtain rfl := Value.text_eq_error htext'
      exact .right .integerTooLong
  | error mishap =>
    obtain rfl := Value.text_eq_error htext
    cases v'.text with
    | ok line' => exact .left .integerTooLong
    | error => exact .both

theorem parallel_get (name : Token) : Parallel SameVariant (get name) (get name) := by
  have hread : Parallel Machine.SameVariants (EStateM.get : Evaluation Machine) EStateM.get :=
    fun _ _ hm ↦ .ok hm hm
  refine hread.bind fun m m' hm ↦ ?_
  have hvalue := hm.scopes.get? name.lexeme
  cases hfound : m.scopes.get? name.lexeme with
  | none =>
    rw [hfound, Option.map_none, Option.map_eq_none_iff] at hvalue
    rw [hvalue]
    exact parallel_throw _ _
  | some v =>
    rw [hfound, Option.map_some, Option.map_eq_some_iff] at hvalue
    obtain ⟨v', hfound', hv⟩ := hvalue
    rw [hfound']
    exact parallel_pure hv

theorem parallel_define (name : Token) (h : SameVariant v v') :
    Parallel Eq (define name v) (define name v') :=
  fun _ _ hm ↦ .ok rfl ⟨hm.scopes.define h name.lexeme, hm.printed, hm.notices⟩

theorem parallel_assign (name : Token) (h : SameVariant v v') :
    Parallel Eq (assign name v) (assign name v') := by
  have hread : Parallel Machine.SameVariants (EStateM.get : Evaluation Machine) EStateM.get :=
    fun _ _ hm ↦ .ok hm hm
  refine hread.bind fun m m' hm ↦ ?_
  have hassign := hm.scopes.assign? h name.lexeme
  generalize m.scopes.assign? name.lexeme v = found at hassign
  generalize m'.scopes.assign? name.lexeme v' = found' at hassign
  cases hassign with
  | none => exact parallel_throw _ _
  | some hscopes => exact fun _ _ _ ↦ .ok rfl ⟨hscopes, hm.printed, hm.notices⟩

theorem parallel_combine (operator : Token) (hl : SameVariant l l') (hr : SameVariant r r') :
    Parallel SameVariant (combine operator l r) (combine operator l' r') := by
  have hcases' := Value.combine_cases operator.kind l' r'
  rw [hl, hr] at hcases'
  unfold combine
  rcases Value.combine_cases operator.kind l r with ⟨v, hv, hvariant⟩ | ⟨hv, hvariant⟩ | hv
  · rcases hcases' with ⟨v', hv', hvariant'⟩ | ⟨-, hvariant'⟩ | hv'
    · rw [hv, hv']
      exact parallel_pure (Option.some.inj (hvariant'.symm.trans hvariant))
    · cases hvariant'.symm.trans hvariant
    · rw [hv, hv']
      exact fun _ _ _ ↦ .right (.divisionByZero operator)
  · rcases hcases' with ⟨v', -, hvariant'⟩ | ⟨hv', -⟩ | hv'
    · cases hvariant'.symm.trans hvariant
    · rw [hv, hv', hl, hr]
      exact (parallel_note _).bind fun _ _ _ ↦ parallel_pure rfl
    · rw [hv, hv']
      exact fun _ _ _ ↦ .right (.divisionByZero operator)
  · rw [hv]
    rcases hcases' with ⟨v', hv', -⟩ | ⟨hv', -⟩ | hv' <;> rw [hv']
    · exact fun _ _ _ ↦ .left (.divisionByZero operator)
    · exact fun _ _ _ ↦ .left (.divisionByZero operator)
    · exact parallel_throw _ _

end Evaluation

open Evaluation

theorem Expr.parallel_evaluate (e : Expr) : Parallel SameVariant e.evaluate e.evaluate := by
  induction e with
  | assign name value ih =>
    exact ih.bind fun v v' hv ↦ (parallel_assign name hv).bind fun _ _ _ ↦ parallel_pure hv
  | binary left operator right ihl ihr =>
    exact ihl.bind fun l l' hl ↦ ihr.bind fun r r' hr ↦ parallel_combine operator hl hr
  | grouping inner ih => exact ih
  | literal value => exact parallel_pure rfl
  | unary operator right ih =>
    refine ih.bind fun v v' hv ↦ parallel_pure ?_
    rw [SameVariant, Value.variant_unary, Value.variant_unary, hv]
  | reference name => exact parallel_get name
  | foreign node => exact parallel_throw _ _

theorem Stmt.parallel_execute (s : Stmt) : Parallel Eq s.execute s.execute := by
  cases s with
  | print value =>
    refine value.parallel_evaluate.bind fun v v' hv ↦ ?_
    exact (parallel_text v v').bind fun line line' _ ↦ parallel_printLine line line'
  | expression value => exact value.parallel_evaluate.bind fun _ _ _ ↦ parallel_pure rfl
  | var name initial =>
    cases initial with
    | none => exact parallel_define name rfl
    | some e => exact e.parallel_evaluate.bind fun v v' hv ↦ parallel_define name hv
  | foreign node => exact parallel_throw _ _

theorem parallel_executeAll (program : List Stmt) :
    Parallel Eq (executeAll program) (executeAll program) := by
  induction program with
  | nil => exact parallel_pure rfl
  | cons s program ih => exact s.parallel_execute.bind fun _ _ _ ↦ ih

/-! ### The values of all expressions -/

/-- The value of an expression, if it has one. -/
def Expr.valueOn (m : Machine) (e : Expr) : List (Expr × Value) :=
  match e.evaluate.run m with
  | .ok v _ => [(e, v)]
  | .error _ _ => []

/-- The expressions that are evaluated for an expression, the last one of which is itself, with
their values. -/
def Expr.trace (m : Machine) : Expr → List (Expr × Value)
  | assign name value => value.trace m ++ (assign name value).valueOn m
  | binary left operator right =>
    left.trace m ++
      (match left.evaluate.run m with
        | .ok _ m' => right.trace m'
        | .error _ _ => []) ++
      (binary left operator right).valueOn m
  | grouping inner => inner.trace m ++ (grouping inner).valueOn m
  | unary operator right => right.trace m ++ (unary operator right).valueOn m
  | e => e.valueOn m

/-- The expressions that are evaluated in the run of a program, with their values. -/
def traceAll (m : Machine) : List Stmt → List (Expr × Value)
  | [] => []
  | s :: ss =>
    s.expression?.elim [] (Expr.trace m) ++
      match s.execute.run m with
      | .ok _ m' => traceAll m' ss
      | .error _ _ => []

/-- An expression and all expressions in it, in the order in which they get their values. -/
def Expr.subexpressions : Expr → List Expr
  | assign name value => value.subexpressions ++ [assign name value]
  | binary left operator right =>
    left.subexpressions ++ right.subexpressions ++ [binary left operator right]
  | grouping inner => inner.subexpressions ++ [grouping inner]
  | unary operator right => right.subexpressions ++ [unary operator right]
  | e => [e]

def Stmt.subexpressions (s : Stmt) : List Expr :=
  s.expression?.elim [] Expr.subexpressions

/-- The same expression with a value of the same variant. -/
structure SameStep (a b : Expr × Value) : Prop where
  expression : b.1 = a.1
  variant : SameVariant a.2 b.2

theorem Evaluation.Parallel.of_ok {A : α → α' → Prop} {x : Evaluation α} {x' : Evaluation α'}
    (h : Parallel A x x') (hm : m.SameVariants m') {a : α} {a' : α'} (hx : x.run m = .ok a n)
    (hx' : x'.run m' = .ok a' n') : A a a' ∧ n.SameVariants n' := by
  have hend := h m m' hm
  rw [hx, hx'] at hend
  cases hend with
  | ok ha hn => exact ⟨ha, hn⟩

theorem Expr.valueOn_same {e : Expr} (hm : m.SameVariants m') (he : e.evaluate.run m = .ok v n)
    (he' : e.evaluate.run m' = .ok v' n') :
    List.Forall₂ SameStep (e.valueOn m) (e.valueOn m') := by
  obtain ⟨hv, -⟩ := e.parallel_evaluate.of_ok hm he he'
  rw [valueOn, valueOn, he, he']
  exact .cons ⟨rfl, hv⟩ .nil

theorem Expr.map_fst_valueOn {e : Expr} (he : e.evaluate.run m = .ok v n) :
    (e.valueOn m).map Prod.fst = [e] := by
  rw [valueOn, he]
  rfl

/-- Where an expression has a value, so have all expressions in it. -/
theorem Expr.map_fst_trace {e : Expr} (he : e.evaluate.run m = .ok v n) :
    (e.trace m).map Prod.fst = e.subexpressions := by
  induction e generalizing m v n with
  | assign name value ih =>
    obtain ⟨_, _, hvalue, -⟩ := run_bind_eq_ok he
    rw [trace, List.map_append, ih hvalue, map_fst_valueOn he, subexpressions]
  | binary left operator right ihl ihr =>
    obtain ⟨_, _, hleft, hrest⟩ := run_bind_eq_ok he
    obtain ⟨_, _, hright, -⟩ := run_bind_eq_ok hrest
    rw [trace, hleft, List.map_append, List.map_append, ihl hleft, ihr hright, map_fst_valueOn he,
      subexpressions]
  | grouping inner ih => rw [trace, List.map_append, ih he, map_fst_valueOn he, subexpressions]
  | unary operator right ih =>
    obtain ⟨_, _, hright, -⟩ := run_bind_eq_ok he
    rw [trace, List.map_append, ih hright, map_fst_valueOn he, subexpressions]
  | literal | reference | foreign => exact map_fst_valueOn he

theorem Expr.trace_same {e : Expr} (hm : m.SameVariants m') (he : e.evaluate.run m = .ok v n)
    (he' : e.evaluate.run m' = .ok v' n') :
    List.Forall₂ SameStep (e.trace m) (e.trace m') := by
  induction e generalizing m m' v v' n n' with
  | assign name value ih =>
    obtain ⟨_, _, hvalue, -⟩ := run_bind_eq_ok he
    obtain ⟨_, _, hvalue', -⟩ := run_bind_eq_ok he'
    exact List.rel_append (ih hm hvalue hvalue') (valueOn_same hm he he')
  | binary left operator right ihl ihr =>
    obtain ⟨_, m₁, hleft, hrest⟩ := run_bind_eq_ok he
    obtain ⟨_, m₁', hleft', hrest'⟩ := run_bind_eq_ok he'
    obtain ⟨_, _, hright, -⟩ := run_bind_eq_ok hrest
    obtain ⟨_, _, hright', -⟩ := run_bind_eq_ok hrest'
    obtain ⟨-, hm₁⟩ := left.parallel_evaluate.of_ok hm hleft hleft'
    rw [trace, trace, hleft, hleft']
    exact List.rel_append (List.rel_append (ihl hm hleft hleft') (ihr hm₁ hright hright'))
      (valueOn_same hm he he')
  | grouping inner ih => exact List.rel_append (ih hm he he') (valueOn_same hm he he')
  | unary operator right ih =>
    obtain ⟨_, _, hright, -⟩ := run_bind_eq_ok he
    obtain ⟨_, _, hright', -⟩ := run_bind_eq_ok he'
    exact List.rel_append (ih hm hright hright') (valueOn_same hm he he')
  | literal | reference | foreign => exact valueOn_same hm he he'

/-- The expression of a statement that completes has a value. -/
theorem Stmt.exists_value {s : Stmt} {e : Expr} (he : s.expression? = some e) {u : Unit}
    (h : s.execute.run m = .ok u n) : ∃ v m₁, e.evaluate.run m = .ok v m₁ := by
  cases s with
  | print value =>
    obtain rfl := Option.some.inj he
    obtain ⟨v, m₁, hv, -⟩ := run_bind_eq_ok h
    exact ⟨v, m₁, hv⟩
  | expression value =>
    obtain rfl := Option.some.inj he
    obtain ⟨v, m₁, hv, -⟩ := run_bind_eq_ok h
    exact ⟨v, m₁, hv⟩
  | var name initial =>
    obtain rfl : initial = some e := he
    obtain ⟨v, m₁, hv, -⟩ := run_bind_eq_ok h
    exact ⟨v, m₁, hv⟩
  | foreign node => cases h

theorem traceAll_same {program : List Stmt} (hm : m.SameVariants m') {u u' : Unit}
    (h : (executeAll program).run m = .ok u n) (h' : (executeAll program).run m' = .ok u' n') :
    List.Forall₂ SameStep (traceAll m program) (traceAll m' program) := by
  induction program generalizing m m' with
  | nil => exact .nil
  | cons s program ih =>
    obtain ⟨_, m₁, hs, h⟩ := run_bind_eq_ok h
    obtain ⟨_, m₁', hs', h'⟩ := run_bind_eq_ok h'
    obtain ⟨-, hm₁⟩ := s.parallel_execute.of_ok hm hs hs'
    rw [traceAll, traceAll, hs, hs']
    refine List.rel_append ?_ (ih hm₁ h h')
    cases he : s.expression? with
    | none => exact .nil
    | some e =>
      obtain ⟨_, _, hv⟩ := s.exists_value he hs
      obtain ⟨_, _, hv'⟩ := s.exists_value he hs'
      exact Expr.trace_same hm hv hv'

theorem map_fst_traceAll {program : List Stmt} {u : Unit}
    (h : (executeAll program).run m = .ok u n) :
    (traceAll m program).map Prod.fst = program.flatMap Stmt.subexpressions := by
  induction program generalizing m with
  | nil => rfl
  | cons s program ih =>
    obtain ⟨_, m₁, hs, h⟩ := run_bind_eq_ok h
    rw [traceAll, hs, List.map_append, ih h, List.flatMap_cons, Stmt.subexpressions]
    cases he : s.expression? with
    | none => rfl
    | some e =>
      obtain ⟨_, _, hv⟩ := s.exists_value he hs
      exact congrArg (· ++ _) (Expr.map_fst_trace hv)

/-! ### The printed values -/

/-- The expression of a print statement. -/
def Stmt.printed? : Stmt → Option Expr
  | print value => some value
  | _ => none

/-- The expressions of the print statements that are executed in the run of a program, with their
values. -/
def printedAll (m : Machine) : List Stmt → List (Expr × Value)
  | [] => []
  | s :: ss =>
    s.printed?.elim [] (Expr.valueOn m) ++
      match s.execute.run m with
      | .ok _ m' => printedAll m' ss
      | .error _ _ => []

/-- From `m` to `n` the values of these expressions were printed, each on a line of its own. -/
def Machine.PrintsValues (m n : Machine) (steps : List (Expr × Value)) : Prop :=
  ∃ lines, List.Forall₂ (fun step line ↦ step.2.text = .ok line) steps lines ∧
    n.printed = lines.reverse ++ m.printed

/-- From `m` to `n` all print statements of a program were executed, and each printed the value that
its expression has in the trace. -/
structure Prints (m : Machine) (program : List Stmt) (n : Machine) : Prop where
  expressions : (printedAll m program).map Prod.fst = program.filterMap Stmt.printed?
  traced : (printedAll m program).Sublist (traceAll m program)
  writes : m.PrintsValues n (printedAll m program)

theorem Machine.PrintsValues.append {m₁ : Machine} {steps later : List (Expr × Value)}
    (h : m.PrintsValues m₁ steps) (hlater : m₁.PrintsValues n later) :
    m.PrintsValues n (steps ++ later) := by
  obtain ⟨lines, htext, hprinted⟩ := h
  obtain ⟨lines', htext', hprinted'⟩ := hlater
  refine ⟨lines ++ lines', List.rel_append htext htext', ?_⟩
  rw [hprinted', hprinted, List.reverse_append, List.append_assoc]

theorem Expr.valueOn_sublist_trace (e : Expr) : (e.valueOn m).Sublist (e.trace m) := by
  cases e with
  | assign | binary | grouping | unary => exact List.sublist_append_right _ _
  | literal | reference | foreign => exact List.Sublist.refl _

/-- A statement prints the value of its expression if it is a print statement, and else nothing. -/
theorem Stmt.printsValues {s : Stmt} {u : Unit} (h : s.execute.run m = .ok u n) :
    (s.printed?.elim [] (Expr.valueOn m)).map Prod.fst = s.printed?.toList ∧
      (s.printed?.elim [] (Expr.valueOn m)).Sublist (s.expression?.elim [] (Expr.trace m)) ∧
      m.PrintsValues n (s.printed?.elim [] (Expr.valueOn m)) := by
  have hnothing : n.printed = m.printed → m.PrintsValues n [] := fun hprinted ↦ ⟨[], .nil, hprinted⟩
  cases s with
  | print value =>
    obtain ⟨v, m₁, hv, h⟩ := run_bind_eq_ok h
    refine ⟨Expr.map_fst_valueOn hv, value.valueOn_sublist_trace, ?_⟩
    cases htext : v.text with
    | error mishap =>
      rw [htext] at h
      cases h
    | ok line =>
      rw [htext] at h
      obtain rfl : { m₁ with printed := line :: m₁.printed } = n := (EStateM.Result.ok.inj h).2
      refine ⟨[line], ?_, congrArg (line :: ·) (Expr.evaluate_ok hv).1.printed⟩
      show List.Forall₂ _ (value.valueOn m) [line]
      rw [Expr.valueOn, hv]
      exact .cons htext .nil
  | expression value =>
    obtain ⟨v, m₁, hv, h⟩ := run_bind_eq_ok h
    cases h
    exact ⟨rfl, List.nil_sublist _, hnothing (Expr.evaluate_ok hv).1.printed⟩
  | var name initial =>
    refine ⟨rfl, List.nil_sublist _, hnothing ?_⟩
    cases initial with
    | none =>
      cases h
      rfl
    | some e =>
      obtain ⟨v, m₁, hv, h⟩ := run_bind_eq_ok h
      cases h
      exact (Expr.evaluate_ok hv).1.printed
  | foreign node => cases h

theorem prints_of_ok {program : List Stmt} {u : Unit} (h : (executeAll program).run m = .ok u n) :
    Prints m program n := by
  induction program generalizing m with
  | nil =>
    cases h
    exact ⟨rfl, .slnil, [], .nil, rfl⟩
  | cons s program ih =>
    obtain ⟨_, m₁, hs, h⟩ := run_bind_eq_ok h
    obtain ⟨hexpressions, htraced, hwrites⟩ := Stmt.printsValues hs
    have hlater := ih h
    have hprinted : printedAll m (s :: program) =
        s.printed?.elim [] (Expr.valueOn m) ++ printedAll m₁ program := by rw [printedAll, hs]
    have htrace : traceAll m (s :: program) =
        s.expression?.elim [] (Expr.trace m) ++ traceAll m₁ program := by rw [traceAll, hs]
    refine ⟨?_, ?_, ?_⟩
    · rw [hprinted, List.map_append, hexpressions, hlater.expressions]
      cases hprints : s.printed? <;> simp [hprints]
    · rw [hprinted, htrace]
      exact htraced.append hlater.traced
    · rw [hprinted]
      exact hwrites.append hlater.writes

theorem printedAll_same {program : List Stmt} (hm : m.SameVariants m') {u u' : Unit}
    (h : (executeAll program).run m = .ok u n) (h' : (executeAll program).run m' = .ok u' n') :
    List.Forall₂ SameStep (printedAll m program) (printedAll m' program) := by
  induction program generalizing m m' with
  | nil => exact .nil
  | cons s program ih =>
    obtain ⟨_, m₁, hs, h⟩ := run_bind_eq_ok h
    obtain ⟨_, m₁', hs', h'⟩ := run_bind_eq_ok h'
    obtain ⟨-, hm₁⟩ := s.parallel_execute.of_ok hm hs hs'
    rw [printedAll, printedAll, hs, hs']
    refine List.rel_append ?_ (ih hm₁ h h')
    cases s with
    | print value =>
      obtain ⟨_, _, hv, -⟩ := run_bind_eq_ok hs
      obtain ⟨_, _, hv', -⟩ := run_bind_eq_ok hs'
      exact Expr.valueOn_same hm hv hv'
    | expression | var | foreign => exact .nil

/-- Two runs of a program from machines with the same variants evaluate all expressions of the
program to values of the same variants and leave the same variants, if both complete. Each of them
executes all print statements and prints the values that their expressions have in its trace, which
have the same variants in both. If only one of the runs fails, it does so over a value, and not at a
name. -/
theorem executeAll_parallel (program : List Stmt) {m m' : Machine} (hm : m.SameVariants m') :
    (∀ n n', (executeAll program).run m = .ok () n → (executeAll program).run m' = .ok () n' →
      n.SameVariants n' ∧ (traceAll m program).map Prod.fst = program.flatMap Stmt.subexpressions ∧
      List.Forall₂ SameStep (traceAll m program) (traceAll m' program) ∧
      Prints m program n ∧ Prints m' program n' ∧
      List.Forall₂ SameStep (printedAll m program) (printedAll m' program)) ∧
    (∀ n f n', (executeAll program).run m = .ok () n →
      (executeAll program).run m' = .error f n' → f.OfValue) ∧
    ∀ f n n', (executeAll program).run m = .error f n →
      (executeAll program).run m' = .ok () n' → f.OfValue := by
  have hend := parallel_executeAll program m m' hm
  refine ⟨fun n n' h h' ↦ ?_, fun n f n' h h' ↦ ?_, fun f n n' h h' ↦ ?_⟩
  · obtain ⟨-, hn⟩ := (parallel_executeAll program).of_ok hm h h'
    exact ⟨hn, map_fst_traceAll h, traceAll_same hm h h', prints_of_ok h, prints_of_ok h',
      printedAll_same hm h h'⟩
  · rw [h, h'] at hend
    cases hend with
    | right hvalue => exact hvalue
  · rw [h, h'] at hend
    cases hend with
    | left hvalue => exact hvalue

/-- The runs of `print 6 / x > 2;` where `x` is two and where it is zero. -/
theorem executeAll_parallel_of_divisor :
    let x : Token := ⟨.identifier, "x", .nil, 1⟩
    let program : List Stmt :=
      [.print (.binary (.binary (.literal (.integer 6)) ⟨.slash, "/", .nil, 1⟩ (.reference x))
        ⟨.greater, ">", .nil, 1⟩ (.literal (.integer 2)))]
    let m (divisor : Int) : Machine := .ofScopes (.globe (.ofList [("x", .integer divisor)]))
    (m 2).SameVariants (m 0) ∧ ∃ n f n', (executeAll program).run (m 2) = .ok () n ∧
      (executeAll program).run (m 0) = .error f n' ∧ f.OfValue := by
  intro x program m
  have hm : (m 2).SameVariants (m 0) := by
    refine ⟨.globe fun name ↦ ?_, rfl, rfl⟩
    by_cases hname : name = "x" <;> simp [Scope.ofList, hname, Value.variant]
  have hrun : (executeAll program).run (m 2) = .ok () { m 2 with printed := ["true"] } := rfl
  have hrun' : (executeAll program).run (m 0) =
      .error (.diagnostic (.divisionByZero ⟨.slash, "/", .nil, 1⟩)) (m 0) := rfl
  exact ⟨hm, _, _, _, hrun, hrun', (executeAll_parallel program hm).2.1 _ _ _ hrun hrun'⟩

end LoxLang
