import LoxLang.Tree
import LoxLang.Value.Text

/-!
The prefix form of syntax trees: every operator in front of its operands, in parentheses.
-/

set_option autoImplicit false
set_option relaxedAutoImplicit false

namespace LoxLang

/-- A head and its operands in parentheses. -/
def parenthesized (head : String) (operands : List String) : String :=
  "(" ++ head ++ " " ++ " ".intercalate operands ++ ")"

def Expr.prefixForm : Expr → Except Mishap String
  | assign name value => do
    .ok (parenthesized ("= " ++ name.lexeme) [← value.prefixForm])
  | binary left operator right => do
    let l ← left.prefixForm
    let r ← right.prefixForm
    .ok (parenthesized operator.lexeme [l, r])
  | grouping inner => do
    .ok (parenthesized "group" [← inner.prefixForm])
  | literal value => value.literalText
  | unary operator right => do
    .ok (parenthesized operator.lexeme [← right.prefixForm])
  | reference name => .ok name.lexeme
  | foreign node => .error (.cannotPrint node)

def Stmt.prefixForm : Stmt → Except Mishap String
  | print value => do
    .ok (parenthesized "print" [← value.prefixForm])
  | expression value => do
    .ok (parenthesized ";" [← value.prefixForm])
  | var name none => .ok ("(var " ++ name.lexeme ++ ")")
  | var name (some initial) => do
    .ok (parenthesized ("var " ++ name.lexeme) [← initial.prefixForm])
  | foreign node => .error (.cannotPrint node)

/-- One line for each statement, without a newline after the last one. -/
def programText (program : List Stmt) : Except Mishap String := do
  .ok ("\n".intercalate (← program.mapM Stmt.prefixForm))

end LoxLang
