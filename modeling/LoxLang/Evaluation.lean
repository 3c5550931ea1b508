import LoxLang.Failure
import LoxLang.Notice
import LoxLang.Operators
import LoxLang.Scope
import LoxLang.Source.Lexing
import LoxLang.Tree.Parsing
import LoxLang.Tree.PrefixForm

/-!
Evaluating expressions, executing statements, and running source text.

A failure ends the run and keeps what was done before it: bindings, printed lines and notices.
-/

set_option autoImplicit false
set_option relaxedAutoImplicit false

namespace LoxLang

/-- Lines and notices are kept last first. -/
structure Machine where
  scopes : Chain
  printed : List String
  notices : List Notice
  deriving DecidableEq, Repr

abbrev Evaluation := EStateM Failure Machine

namespace Machine

/-- A machine that has done nothing yet. -/
def ofScopes (scopes : Chain) : Machine := ⟨scopes, [], []⟩

/-- The text that print statements wrote. -/
def output (m : Machine) : String :=
  String.join (m.printed.reverse.map (· ++ "\n"))

end Machine

namespace Evaluation

def note (n : Notice) : Evaluation Unit :=
  modify fun m => { m with notices := n :: m.notices }

def printLine (text : String) : Evaluation Unit :=
  modify fun m => { m with printed := text :: m.printed }

def failOnMishap {α : Type} : Except Mishap α → Evaluation α
  | .ok a => pure a
  | .error m => throw (.mishap m)

def failOn {α : Type} : Except Failure α → Evaluation α
  | .ok a => pure a
  | .error f => throw f

def get (name : Token) : Evaluation Value := do
  match (← EStateM.get).scopes.get? name.lexeme with
  | some value => return value
  | none => throw (.diagnostic (.undefinedVariable name))

def define (name : Token) (value : Value) : Evaluation Unit :=
  modify fun m => { m with scopes := m.scopes.define name.lexeme value }

def assign (name : Token) (value : Value) : Evaluation Unit := do
  let m ← EStateM.get
  match m.scopes.assign? name.lexeme value with
  | some scopes => EStateM.set { m with scopes }
  | none => throw (.diagnostic (.undefinedVariable name))

def combine (operator : Token) (left right : Value) : Evaluation Value :=
  match Value.combine operator.kind left right with
  | .value v => return v
  | .mismatch => do
    note (.evaluatesToNil operator.lexeme left.variant right.variant)
    return .nil
  | .divisionByZero => throw (.diagnostic (.divisionByZero operator))

end Evaluation

open Evaluation

def Expr.evaluate : Expr → Evaluation Value
  | literal value => return value
  | grouping inner => inner.evaluate
  | reference name => get name
  | assign name value => do
    let v ← value.evaluate
    Evaluation.assign name v
    return v
  | unary operator right => do
    return Value.unary operator.kind (← right.evaluate)
  | binary left operator right => do
    let l ← left.evaluate
    let r ← right.evaluate
    combine operator l r
  | foreign node => throw (.mishap (.cannotEvaluate node))

def Stmt.execute : Stmt → Evaluation Unit
  | print value => do
    let v ← value.evaluate
    printLine (← failOnMishap v.text)
  | expression value => do
    discard value.evaluate
  | var name none => define name .nil
  | var name (some initial) => do
    define name (← initial.evaluate)
  | foreign node => throw (.mishap (.cannotExecute node))

/-- Executes statements in order, up to the first that fails. -/
def executeAll : List Stmt → Evaluation Unit
  | [] => pure ()
  | s :: ss => do
    s.execute
    executeAll ss

/-- The statements of a source text, none of which is executed. -/
def readProgram (source : String) : Evaluation (List Stmt) := do
  note (.scanning source.length)
  let tokens ← failOn (Source.tokenize source)
  let program ← failOn (parse tokens)
  note (.parsed program.length)
  return program

/-- Runs a source text. Nothing is executed unless all of it can be read. -/
def run (source : String) : Evaluation Unit := do
  let program ← readProgram source
  note (.executing program.length)
  executeAll program

/-- The prefix form of a source text. -/
def dump (source : String) : Evaluation String := do
  failOnMishap (programText (← readProgram source))

end LoxLang
