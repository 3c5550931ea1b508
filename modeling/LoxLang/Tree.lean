import LoxLang.Token

/-!
Syntax trees: expressions and statements.
-/

set_option autoImplicit false
set_option relaxedAutoImplicit false

namespace LoxLang

/-- `foreign` stands for a node that is no expression, known by its name only. -/
inductive Expr
  | assign (name : Token) (value : Expr)
  | binary (left : Expr) (operator : Token) (right : Expr)
  | grouping (inner : Expr)
  | literal (value : Value)
  | unary (operator : Token) (right : Expr)
  | reference (name : Token)
  | foreign (node : String)
  deriving DecidableEq, Repr

/-- `foreign` stands for a node that is no statement, known by its name only. -/
inductive Stmt
  | print (value : Expr)
  | expression (value : Expr)
  | var (name : Token) (initial : Option Expr)
  | foreign (node : String)
  deriving DecidableEq, Repr

/-- The same kind and lexeme on the same line, with literals that are equal as numbers. -/
def Token.resembles (a b : Token) : Bool :=
  a.kind == b.kind && a.lexeme == b.lexeme && a.literal.equalsAsNumber b.literal && a.line == b.line

/-- The same tree, but for literals that are equal as numbers. -/
def Expr.resembles : Expr → Expr → Bool
  | assign a v, assign b w => a.resembles b && v.resembles w
  | binary l a r, binary k b s => l.resembles k && a.resembles b && r.resembles s
  | grouping e, grouping f => e.resembles f
  | literal v, literal w => v.equalsAsNumber w
  | unary a e, unary b f => a.resembles b && e.resembles f
  | reference a, reference b => a.resembles b
  | foreign m, foreign n => m == n
  | _, _ => false

def Stmt.resembles : Stmt → Stmt → Bool
  | print e, print f => e.resembles f
  | expression e, expression f => e.resembles f
  | var a none, var b none => a.resembles b
  | var a (some e), var b (some f) => a.resembles b && e.resembles f
  | foreign m, foreign n => m == n
  | _, _ => false

/-- Whether two programs have the same statements. -/
def Stmt.allResemble : List Stmt → List Stmt → Bool
  | [], [] => true
  | s :: ss, t :: ts => s.resembles t && allResemble ss ts
  | _, _ => false

end LoxLang
