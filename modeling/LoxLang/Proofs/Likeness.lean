import LoxLang.Failure
import LoxLang.Tree
import Mathlib.Data.List.Forall2

/-!
What differs at most in its lines.

Tokens, trees and failures are alike if they are the same but for the lines of their tokens, and
each line is related to its counterpart by a given relation `L`. With `L` true of all lines this
ignores them; with `L` the graph of an addition it moves them (`Failure.moveLines`).
-/

set_option autoImplicit false
set_option relaxedAutoImplicit false

namespace LoxLang

variable {L : Int → Int → Prop}

/-- The same token, on a related line. -/
structure Token.Like (L : Int → Int → Prop) (t t' : Token) : Prop where
  kind : t'.kind = t.kind
  lexeme : t'.lexeme = t.lexeme
  literal : t'.literal = t.literal
  line : L t.line t'.line

inductive Expr.Like (L : Int → Int → Prop) : Expr → Expr → Prop
  | assign {t t' : Token} {e e' : Expr} (ht : t.Like L t') (he : Like L e e') :
    Like L (.assign t e) (.assign t' e')
  | binary {t t' : Token} {l l' r r' : Expr} (hl : Like L l l') (ht : t.Like L t')
    (hr : Like L r r') : Like L (.binary l t r) (.binary l' t' r')
  | grouping {e e' : Expr} (he : Like L e e') : Like L (.grouping e) (.grouping e')
  | literal (v : Value) : Like L (.literal v) (.literal v)
  | unary {t t' : Token} {e e' : Expr} (ht : t.Like L t') (he : Like L e e') :
    Like L (.unary t e) (.unary t' e')
  | reference {t t' : Token} (ht : t.Like L t') : Like L (.reference t) (.reference t')
  | foreign (node : String) : Like L (.foreign node) (.foreign node)

inductive Stmt.Like (L : Int → Int → Prop) : Stmt → Stmt → Prop
  | print {e e' : Expr} (he : e.Like L e') : Like L (.print e) (.print e')
  | expression {e e' : Expr} (he : e.Like L e') : Like L (.expression e) (.expression e')
  | var {t t' : Token} {e e' : Option Expr} (ht : t.Like L t')
    (he : Option.Rel (Expr.Like L) e e') : Like L (.var t e) (.var t' e')
  | foreign (node : String) : Like L (.foreign node) (.foreign node)

/-- The same diagnostic, on a related line. -/
structure Diagnostic.Like (L : Int → Int → Prop) (d d' : Diagnostic) : Prop where
  cause : d'.cause = d.cause
  line : L d.line d'.line
  lexeme : d'.lexeme = d.lexeme

inductive Failure.Like (L : Int → Int → Prop) : Failure → Failure → Prop
  | diagnostic {d d' : Diagnostic} (h : d.Like L d') : Like L (.diagnostic d) (.diagnostic d')
  | mishap (m : Mishap) : Like L (.mishap m) (.mishap m)

section Refl

variable (hL : ∀ line, L line line)

include hL

theorem Token.like_refl (t : Token) : t.Like L t :=
  ⟨rfl, rfl, rfl, hL t.line⟩

theorem Expr.like_refl (e : Expr) : e.Like L e := by
  induction e with
  | assign name value ih => exact .assign (name.like_refl hL) ih
  | binary left operator right ihl ihr => exact .binary ihl (operator.like_refl hL) ihr
  | grouping inner ih => exact .grouping ih
  | literal value => exact .literal value
  | unary operator right ih => exact .unary (operator.like_refl hL) ih
  | reference name => exact .reference (name.like_refl hL)
  | foreign node => exact .foreign node

theorem Stmt.like_refl (s : Stmt) : s.Like L s := by
  cases s with
  | print value => exact .print (value.like_refl hL)
  | expression value => exact .expression (value.like_refl hL)
  | var name initial =>
    refine .var (name.like_refl hL) ?_
    cases initial with
    | none => exact .none
    | some e => exact .some (e.like_refl hL)
  | foreign node => exact .foreign node

end Refl

theorem Diagnostic.Like.atToken {t t' : Token} (h : t.Like L t') (cause : Cause) :
    Like L (.atToken cause t) (.atToken cause t') := by
  refine ⟨rfl, h.line, ?_⟩
  simp only [Diagnostic.atToken, Diagnostic.atText, h.lexeme]

theorem Diagnostic.Like.undefinedVariable {t t' : Token} (h : t.Like L t') :
    Like L (.undefinedVariable t) (.undefinedVariable t') := by
  unfold Diagnostic.undefinedVariable
  rw [h.lexeme]
  exact .atToken h _

/-! ### Lines that are moved -/

def Diagnostic.moveLine (k : Int) (d : Diagnostic) : Diagnostic :=
  { d with line := d.line + k }

theorem Diagnostic.moveLine_atText (k : Int) (cause : Cause) (line : Int) (lexeme : String) :
    (Diagnostic.atText cause line lexeme).moveLine k =
      Diagnostic.atText cause (line + k) lexeme := rfl

/-- A failure of a text that begins `k` lines further down. -/
def Failure.moveLines (k : Int) : Failure → Failure
  | diagnostic d => diagnostic (d.moveLine k)
  | mishap m => mishap m

def Token.moveLine (k : Int) (t : Token) : Token :=
  { t with line := t.line + k }

theorem Token.like_moveLine (k : Int) (t : Token) : t.Like (fun x y ↦ y = x + k) (t.moveLine k) :=
  ⟨rfl, rfl, rfl, rfl⟩

theorem Diagnostic.Like.eq {d d' : Diagnostic} (h : d.Like Eq d') : d = d' := by
  obtain ⟨cause, line, lexeme, hlexeme⟩ := d
  obtain ⟨cause', line', lexeme', hlexeme'⟩ := d'
  obtain ⟨rfl, rfl, rfl⟩ : cause' = cause ∧ line = line' ∧ lexeme' = lexeme :=
    ⟨h.cause, h.line, h.lexeme⟩
  rfl

theorem Failure.Like.eq {f f' : Failure} (h : f.Like Eq f') : f = f' := by
  cases h with
  | diagnostic h => rw [h.eq]
  | mishap m => rfl

/-- A failure like another one whose lines are moved is that failure with its lines moved. -/
theorem Failure.Like.eq_moveLines {k : Int} {f f' : Failure}
    (h : f.Like (fun x y ↦ y = x + k) f') : f.moveLines k = f' := by
  refine Failure.Like.eq ?_
  cases h with
  | diagnostic h => exact .diagnostic ⟨h.cause, h.line.symm, h.lexeme⟩
  | mishap m => exact .mishap m

@[simp] theorem Failure.moveLines_moveLines (j k : Int) (f : Failure) :
    (f.moveLines j).moveLines k = f.moveLines (j + k) := by
  cases f with
  | diagnostic d => simp [moveLines, Diagnostic.moveLine, Int.add_assoc]
  | mishap m => rfl

@[simp] theorem Failure.moveLines_zero (f : Failure) : f.moveLines 0 = f := by
  cases f with
  | diagnostic d => simp [moveLines, Diagnostic.moveLine]
  | mishap m => rfl

end LoxLang
