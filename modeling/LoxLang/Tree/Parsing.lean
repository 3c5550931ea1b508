import LoxLang.Failure
import LoxLang.Tree

/-!
Building syntax trees from tokens, by recursive descent with one token of lookahead.

```
program     → declaration* end
declaration → "var" IDENTIFIER ("=" expression)? ";" | statement
statement   → "print" expression ";" | expression ";"
expression  → assignment
assignment  → IDENTIFIER "=" assignment | equality
equality    → comparison (("!=" | "==") comparison)*
comparison  → term ((">" | ">=" | "<" | "<=") term)*
term        → factor (("-" | "+") factor)*
factor      → unary (("/" | "*") unary)*
unary       → ("!" | "-") unary | primary
primary     → "true" | "false" | "nil" | NUMBER | STRING | IDENTIFIER | "(" expression ")"
```

Each function that may call itself takes a bound on the number of tokens that are left. Every call
inside it comes after a token was taken, so the bound runs out only where the tokens do, and a
parser of no tokens fails as the bound does.
-/

set_option autoImplicit false
set_option relaxedAutoImplicit false

namespace LoxLang

/-- A reading position in a list of tokens; those before it are kept last first. -/
structure Feed where
  before : List Token
  rest : List Token
  deriving DecidableEq, Repr

def Feed.ofTokens (tokens : List Token) : Feed := ⟨[], tokens⟩

def Feed.position (feed : Feed) : Nat := feed.before.length

/-- The position behind the next token. -/
def Feed.advance (feed : Feed) : Feed :=
  match feed.rest with
  | t :: ts => ⟨t :: feed.before, ts⟩
  | [] => feed

abbrev Parser := EStateM Failure Feed

namespace Parser

open Diagnostic

def exhausted {α : Type} : Parser α :=
  throw (.mishap .tokensExhausted)

def fail {α : Type} (fault : GrammarFault) (token : Token) (wording : String)
    (expected : Option String := none) : Parser α :=
  throw (.diagnostic (.atToken (.grammar fault wording expected) token))

/-! ### The reading position -/

def next : Parser Token := do
  match (← get).rest with
  | t :: _ => return t
  | [] => exhausted

/-- The token before the position; before the first one stands the last. -/
def last : Parser Token := do
  let feed ← get
  match feed.before.head? <|> feed.rest.getLast? with
  | some t => return t
  | none => exhausted

def isFinished : Parser Bool := do
  return (← next).kind = .endOfText

/-- Whether the next token has the kind. The end of the text never counts. -/
def nextIs (kind : Token.Kind) : Parser Bool := do
  if ← isFinished then
    return false
  else
    return (← next).kind = kind

/-- Takes the next token, unless it is the end of the text, and returns the one before the new
position. -/
def take : Parser Token := do
  if !(← isFinished) then
    modify Feed.advance
  last

/-- Takes the next token if it has one of the kinds. -/
def accept? : List Token.Kind → Parser (Option Token)
  | [] => return none
  | kind :: kinds => do
    if ← nextIs kind then
      return some (← take)
    else
      accept? kinds

/-- The lexeme that a report of a missing token names. -/
def requiredLexeme? : Token.Kind → Option String
  | .semicolon => some ";"
  | .rightParen => some ")"
  | _ => none

/-- Takes the next token, which must have the kind. -/
def require (kind : Token.Kind) (wording : String) (fault : GrammarFault := .expectedToken) :
    Parser Token := do
  if ← nextIs kind then
    take
  else
    fail fault (← next) wording (if fault = .expectedToken then requiredLexeme? kind else none)

/-! ### Expressions -/

/-- The literals that are words. -/
def literalWord? : Token.Kind → Option Value
  | .kwFalse => some (.bool false)
  | .kwTrue => some (.bool true)
  | .kwNil => some .nil
  | _ => none

/-- An operand, with `inner` for the expression between parentheses. -/
def primaryOver (inner : Parser Expr) : Parser Expr := do
  if let some value := literalWord? (← next).kind then
    discard take
    return .literal value
  else if let some t ← accept? [.number, .string] then
    return .literal t.literal
  else if let some name ← accept? [.identifier] then
    return .reference name
  else if let some _ ← accept? [.leftParen] then
    let e ← inner
    discard (require .rightParen "Expect ')' after expression.")
    return .grouping e
  else
    fail .expectedExpression (← next) "Expect expression."

def unaryOver (inner : Parser Expr) : Nat → Parser Expr
  | 0 => exhausted
  | n + 1 => do
    match ← accept? [.bang, .minus] with
    | some operator => return .unary operator (← unaryOver inner n)
    | none => primaryOver inner

/-- More operands, each after an operator, joined to `left` from the left. -/
def operands (operators : List Token.Kind) (operand : Parser Expr) : Nat → Expr → Parser Expr
  | 0, _ => exhausted
  | n + 1, left => do
    match ← accept? operators with
    | some operator =>
      let right ← operand
      operands operators operand n (.binary left operator right)
    | none => return left

/-- A tier of binary operators. -/
def tier (operators : List Token.Kind) (operand : Parser Expr) (n : Nat) : Parser Expr := do
  operands operators operand n (← operand)

def factorOver (inner : Parser Expr) (n : Nat) : Parser Expr :=
  tier [.slash, .star] (unaryOver inner n) n

def termOver (inner : Parser Expr) (n : Nat) : Parser Expr :=
  tier [.minus, .plus] (factorOver inner n) n

def comparisonOver (inner : Parser Expr) (n : Nat) : Parser Expr :=
  tier [.greater, .greaterEqual, .less, .lessEqual] (termOver inner n) n

def equalityOver (inner : Parser Expr) (n : Nat) : Parser Expr :=
  tier [.bangEqual, .equalEqual] (comparisonOver inner n) n

/-- The target is read as an expression first and must turn out to be a name. -/
def assignmentOver (target : Parser Expr) : Nat → Parser Expr
  | 0 => exhausted
  | n + 1 => do
    let e ← target
    match ← accept? [.equal] with
    | none => return e
    | some sign =>
      let value ← assignmentOver target n
      match e with
      | .reference name => return .assign name value
      | _ => fail .invalidAssignmentTarget sign "Invalid assignment target."

def expressionWithin : Nat → Parser Expr
  | 0 => exhausted
  | n + 1 => assignmentOver (equalityOver (expressionWithin n) (n + 1)) (n + 1)

/-- A parser with the number of tokens that are left for its bound. -/
def bounded {α : Type} (parser : Nat → Parser α) : Parser α := do
  parser (← get).rest.length

def expression : Parser Expr :=
  bounded expressionWithin

def equality : Parser Expr :=
  bounded fun n => equalityOver (expressionWithin n) n

def comparison : Parser Expr :=
  bounded fun n => comparisonOver (expressionWithin n) n

def term : Parser Expr :=
  bounded fun n => termOver (expressionWithin n) n

def factor : Parser Expr :=
  bounded fun n => factorOver (expressionWithin n) n

def unary : Parser Expr :=
  bounded fun n => unaryOver (expressionWithin n) n

def primary : Parser Expr :=
  bounded fun n => primaryOver (expressionWithin n)

/-! ### Statements -/

/-- The rest of a declaration, after its keyword. -/
def varDeclaration : Parser Stmt := do
  let name ← require .identifier "Expect variable name." .expectedIdentifier
  let initial ← match ← accept? [.equal] with
    | some _ => some <$> expression
    | none => pure none
  discard (require .semicolon "Expect ';' after variable declaration.")
  return .var name initial

/-- The rest of a print statement, after its keyword. -/
def printStatement : Parser Stmt := do
  let value ← expression
  discard (require .semicolon "Expect ';' after expression.")
  return .print value

def expressionStatement : Parser Stmt := do
  let value ← expression
  discard (require .semicolon "Expect ';' after value.")
  return .expression value

def statement : Parser Stmt := do
  match ← accept? [.kwPrint] with
  | some _ => printStatement
  | none => expressionStatement

def declaration : Parser Stmt := do
  match ← accept? [.kwVar] with
  | some _ => varDeclaration
  | none => statement

def programWithin : Nat → Parser (List Stmt)
  | 0 => exhausted
  | n + 1 => do
    if ← isFinished then
      return []
    else
      let s ← declaration
      return s :: (← programWithin n)

/-- All statements up to the end of the text. -/
def program : Parser (List Stmt) :=
  bounded programWithin

end Parser

/-- The statements that a list of tokens spells. -/
def parse (tokens : List Token) : Except Failure (List Stmt) :=
  match Parser.program.run (Feed.ofTokens tokens) with
  | .ok statements _ => .ok statements
  | .error failure _ => .error failure

end LoxLang
