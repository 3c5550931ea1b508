import LoxLang.Diagnostic

/-!
Notices: what the interpreter logs about its own work.
-/

set_option autoImplicit false
set_option relaxedAutoImplicit false

namespace LoxLang

inductive Notice
  | scanning (characters : Nat)
  | parsed (statements : Nat)
  | executing (statements : Nat)
  | evaluatesToNil (operator : String) (left right : Variant)
  | loading (path : String)
  | failed (path : String) (d : Diagnostic)
  | reporting (d : Diagnostic)
  | reportingMishap
  deriving DecidableEq, Repr

namespace Notice

def info : Nat := 20

def debug : Nat := 10

def level : Notice → Nat
  | loading _ => info
  | _ => debug

def levelName : Notice → String
  | loading _ => "INFO"
  | _ => "DEBUG"

/-- The part of the interpreter that a notice comes from. -/
def origin : Notice → String
  | scanning _ => "lox.syntax.scanner"
  | parsed _ => "lox.syntax.parser"
  | executing _ => "lox.interpreter"
  | evaluatesToNil .. => "lox.lang.evaluator"
  | loading _ => "lox.lang.session"
  | failed .. => "lox.lang.session"
  | reporting _ => "lox.lang.error"
  | reportingMishap => "lox.lang.error"

/-- The text of a notice. A log that shows the notice of a mishap also traces the interpreter's own
calls below it; that trace is left out. -/
def text : Notice → String
  | scanning characters => "scanning " ++ toString characters ++ " characters"
  | parsed statements => "parsed " ++ toString statements ++ " statement(s)"
  | executing statements => "executing " ++ toString statements ++ " statement(s)"
  | evaluatesToNil operator left right =>
    "'" ++ operator ++ "' on " ++ left.name ++ " and " ++ right.name ++ " evaluates to nil"
  | loading path => "loading " ++ path
  | failed path d => path ++ " failed: " ++ d.summary
  | reporting d => "reporting " ++ d.summary
  | reportingMishap => "internal error"

def line (n : Notice) : String :=
  n.levelName ++ " " ++ n.origin ++ ": " ++ n.text ++ "\n"

end Notice

end LoxLang
