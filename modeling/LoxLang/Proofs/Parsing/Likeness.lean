import LoxLang.Proofs.Likeness
import LoxLang.Proofs.Parsing.Bounds
import LoxLang.Proofs.Simulation

/-!
The parser does not look at lines.

On tokens that are alike it builds trees that are alike, or fails with failures that are alike
(`Parser.like_program`).
-/

set_option autoImplicit false
set_option relaxedAutoImplicit false

namespace LoxLang

variable {L : Int → Int → Prop}

/-- What is still to be read is alike. -/
def Feed.Like (L : Int → Int → Prop) (feed feed' : Feed) : Prop :=
  List.Forall₂ (Token.Like L) feed.rest feed'.rest

namespace Parser

variable {α α' : Type} {A : α → α' → Prop} {inner inner' : Parser Expr}

/-- On feeds that are alike, two parsers do alike. -/
abbrev Like (L : Int → Int → Prop) (A : α → α' → Prop) (p : Parser α) (p' : Parser α') : Prop :=
  Simulates (Feed.Like L) (Failure.Like L) A p p'

theorem like_exhausted : Like L A (exhausted : Parser α) (exhausted : Parser α') :=
  simulates_throw (.mishap .tokensExhausted)

theorem like_fail {t t' : Token} (h : t.Like L t') (fault : Diagnostic.GrammarFault)
    (wording : String) (expected : Option String) :
    Like L A (fail fault t wording expected : Parser α) (fail fault t' wording expected) :=
  simulates_throw (.diagnostic (.atToken h _))

theorem like_next : Like L (Token.Like L) next next := by
  rintro ⟨before, rest⟩ ⟨before', rest'⟩ h
  cases rest with
  | nil =>
    obtain rfl : rest' = [] := List.forall₂_nil_left_iff.mp h
    exact .error (.mishap _) h
  | cons t ts =>
    obtain ⟨t', ts', ht, -, rfl⟩ := List.forall₂_cons_left_iff.mp h
    exact .ok ht h

theorem like_isFinished : Like L Eq isFinished isFinished :=
  like_next.bind fun t t' h ↦ simulates_pure (by rw [h.kind])

theorem like_accept? (kinds : List Token.Kind) :
    Like L (Option.Rel (Token.Like L)) (accept? kinds) (accept? kinds) := by
  by_cases hk : kinds = []
  · subst hk
    exact simulates_pure .none
  rintro ⟨before, rest⟩ ⟨before', rest'⟩ h
  cases rest with
  | nil =>
    obtain rfl : rest' = [] := List.forall₂_nil_left_iff.mp h
    rw [starves_accept? hk, starves_accept? hk]
    exact .error (.mishap _) h
  | cons t ts =>
    obtain ⟨t', ts', ht, hts, rfl⟩ := List.forall₂_cons_left_iff.mp h
    rw [run_accept?_cons, run_accept?_cons, ht.kind]
    by_cases htaken : t.kind ≠ .endOfText ∧ t.kind ∈ kinds
    · rw [if_pos htaken, if_pos htaken]
      exact .ok (.some ht) hts
    · rw [if_neg htaken, if_neg htaken]
      exact .ok .none h

theorem like_require (kind : Token.Kind) (wording : String) (fault : Diagnostic.GrammarFault) :
    Like L (Token.Like L) (require kind wording fault) (require kind wording fault) := by
  rintro ⟨before, rest⟩ ⟨before', rest'⟩ h
  cases rest with
  | nil =>
    obtain rfl : rest' = [] := List.forall₂_nil_left_iff.mp h
    rw [starves_require, starves_require]
    exact .error (.mishap _) h
  | cons t ts =>
    obtain ⟨t', ts', ht, hts, rfl⟩ := List.forall₂_cons_left_iff.mp h
    rw [run_require_cons, run_require_cons, ht.kind]
    by_cases htaken : t.kind ≠ .endOfText ∧ t.kind = kind
    · rw [if_pos htaken, if_pos htaken]
      exact .ok ht hts
    · rw [if_neg htaken, if_neg htaken]
      exact like_fail ht _ _ _ _ _ h

/-! ### Expressions -/

theorem Like.primaryOver (h : Like L (Expr.Like L) inner inner') :
    Like L (Expr.Like L) (primaryOver inner) (primaryOver inner') := by
  rintro ⟨before, rest⟩ ⟨before', rest'⟩ hfeed
  cases rest with
  | nil =>
    obtain rfl : rest' = [] := List.forall₂_nil_left_iff.mp hfeed
    exact .error (.mishap _) hfeed
  | cons t ts =>
    obtain ⟨t', ts', ht, hts, rfl⟩ := List.forall₂_cons_left_iff.mp hfeed
    obtain ⟨kind, lexeme, literal, line⟩ := t
    obtain ⟨kind', lexeme', literal', line'⟩ := t'
    obtain rfl : kind = kind' := ht.kind.symm
    obtain rfl : literal = literal' := ht.literal.symm
    -- The first token decides which operand it is.
    cases kind
    case kwTrue | kwFalse | kwNil | number | string => exact .ok (.literal _) hts
    case identifier => exact .ok (.reference ht) hts
    case leftParen =>
      refine h.bind (fun e e' he ↦ ?_) ⟨_, ts⟩ ⟨_, ts'⟩ hts
      exact (like_require _ _ _).discard.bind fun _ _ _ ↦ simulates_pure (.grouping he)
    all_goals exact like_fail ht _ _ _ ⟨before, _ :: ts⟩ ⟨before', _ :: ts'⟩ hfeed

theorem Like.unaryOver (h : Like L (Expr.Like L) inner inner') (n : Nat) :
    Like L (Expr.Like L) (unaryOver inner n) (unaryOver inner' n) := by
  induction n with
  | zero => exact like_exhausted
  | succ n ih =>
    refine (like_accept? _).bind fun o o' ho ↦ ?_
    cases ho with
    | none => exact h.primaryOver
    | some ht => exact ih.bind fun e e' he ↦ simulates_pure (.unary ht he)

theorem Like.operands (operators : List Token.Kind) (h : Like L (Expr.Like L) inner inner')
    (n : Nat) {left left' : Expr} (hleft : left.Like L left') :
    Like L (Expr.Like L) (operands operators inner n left) (operands operators inner' n left') := by
  induction n generalizing left left' with
  | zero => exact like_exhausted
  | succ n ih =>
    refine (like_accept? _).bind fun o o' ho ↦ ?_
    cases ho with
    | none => exact simulates_pure hleft
    | some ht => exact h.bind fun e e' he ↦ ih (.binary hleft ht he)

theorem Like.tier (operators : List Token.Kind) (h : Like L (Expr.Like L) inner inner') (n : Nat) :
    Like L (Expr.Like L) (tier operators inner n) (tier operators inner' n) :=
  h.bind fun _ _ hleft ↦ h.operands operators n hleft

theorem Like.equalityOver (h : Like L (Expr.Like L) inner inner') (n : Nat) :
    Like L (Expr.Like L) (equalityOver inner n) (equalityOver inner' n) :=
  ((((h.unaryOver n).tier _ n).tier _ n).tier _ n).tier _ n

theorem Like.assignmentOver (h : Like L (Expr.Like L) inner inner') (n : Nat) :
    Like L (Expr.Like L) (assignmentOver inner n) (assignmentOver inner' n) := by
  induction n with
  | zero => exact like_exhausted
  | succ n ih =>
    refine h.bind fun e e' he ↦ (like_accept? _).bind fun o o' ho ↦ ?_
    cases ho with
    | none => exact simulates_pure he
    | some ht =>
      refine ih.bind fun v v' hv ↦ ?_
      cases he with
      | reference hname => exact simulates_pure (.assign hname hv)
      | _ => exact like_fail ht _ _ _

theorem like_expressionWithin (n : Nat) :
    Like L (Expr.Like L) (expressionWithin n) (expressionWithin n) := by
  induction n with
  | zero => exact like_exhausted
  | succ n ih => exact (ih.equalityOver _).assignmentOver _

theorem Like.bounded {p : Nat → Parser α} {p' : Nat → Parser α'} (h : ∀ n, Like L A (p n) (p' n)) :
    Like L A (bounded p) (bounded p') := by
  intro feed feed' hfeed
  have hlength : feed.rest.length = feed'.rest.length := hfeed.length_eq
  show SameEnd _ _ _ ((p feed.rest.length).run feed) ((p' feed'.rest.length).run feed')
  rw [← hlength]
  exact h feed.rest.length feed feed' hfeed

theorem like_expression : Like L (Expr.Like L) expression expression :=
  .bounded like_expressionWithin

/-! ### Statements -/

theorem like_semicolon (wording : String) : Like L Eq (discard (require .semicolon wording))
    (discard (require .semicolon wording)) :=
  (like_require _ _ _).discard

theorem like_varDeclaration : Like L (Stmt.Like L) varDeclaration varDeclaration := by
  refine (like_require _ _ _).bind fun t t' ht ↦ (like_accept? _).bind fun o o' ho ↦ ?_
  have hclose (e e' : Option Expr) (he : Option.Rel (Expr.Like L) e e') :
      Like L (Stmt.Like L)
        (do
          discard (require .semicolon "Expect ';' after variable declaration.")
          return .var t e)
        (do
          discard (require .semicolon "Expect ';' after variable declaration.")
          return .var t' e') :=
    (like_semicolon _).bind fun _ _ _ ↦ simulates_pure (.var ht he)
  cases ho with
  | none => exact (simulates_pure .none).bind hclose
  | some _ => exact (like_expression.map fun e e' he ↦ Option.Rel.some he).bind hclose

theorem like_statement : Like L (Stmt.Like L) statement statement := by
  refine (like_accept? _).bind fun o o' ho ↦ ?_
  cases ho with
  | none =>
    exact like_expression.bind fun e e' he ↦ (like_semicolon _).bind fun _ _ _ ↦
      simulates_pure (.expression he)
  | some _ =>
    exact like_expression.bind fun e e' he ↦ (like_semicolon _).bind fun _ _ _ ↦
      simulates_pure (.print he)

theorem like_declaration : Like L (Stmt.Like L) declaration declaration := by
  refine (like_accept? _).bind fun o o' ho ↦ ?_
  cases ho with
  | none => exact like_statement
  | some _ => exact like_varDeclaration

theorem like_programWithin (n : Nat) :
    Like L (List.Forall₂ (Stmt.Like L)) (programWithin n) (programWithin n) := by
  induction n with
  | zero => exact like_exhausted
  | succ n ih =>
    refine like_isFinished.bind fun finished _ hfinished ↦ ?_
    subst hfinished
    cases finished with
    | true => exact simulates_pure .nil
    | false =>
      exact like_declaration.bind fun s s' hs ↦ ih.bind fun ss ss' hss ↦
        simulates_pure (.cons hs hss)

theorem like_program : Like L (List.Forall₂ (Stmt.Like L)) program program :=
  .bounded like_programWithin

end Parser

end LoxLang
