import LoxLang.Continuation
import LoxLang.Session

/-!
The console: a session that is fed line by line.

A line with open parentheses is kept until the lines after it close them. A bare command word is
a command at any time, and every other line that is not blank is source text.
-/

set_option autoImplicit false
set_option relaxedAutoImplicit false

namespace LoxLang

/-- `startLine` is the number of the line on which the pending statement began, or the last one. -/
structure Console where
  session : Session
  prompt : String
  primaryPrompt : String
  pending : String
  startLine : Nat
  lineNumber : Nat

namespace Console

inductive Command
  | help
  | exit
  | endOfInput
  deriving DecidableEq, Repr

def Command.ofWord? (word : String) : Option Command :=
  match word with
  | "help" => some help
  | "exit" => some exit
  | "EOF" => some endOfInput
  | _ => none

/-- What becomes of the console after a line. -/
inductive Outcome
  | goesOn
  | stops
  | exits (code : Nat)
  | fails (f : Failure)
  deriving DecidableEq, Repr

/-- The outcome of a line, and what the console itself shows; what the program prints is kept by the
session. -/
structure Reply where
  outcome : Outcome
  shown : String := ""
  deriving DecidableEq, Repr

def defaultPrompt : String := ">>> "

def secondaryPrompt : String := "... "

def welcome : String :=
  "Welcome to the Lox interpreter.\nType 'help' for more information.\n"

def helpText : String :=
  "Welcome to the lox interpreter!\n\n" ++
  "Lox is a small dynamically-typed scripting language. This interpreter supports \n" ++
  "numbers, strings, booleans and nil, arithmetic/comparison operators, variables \n" ++
  "and print statements.\n\n" ++
  "Try it out by typing 'var x = 5;'. This will bind 5 to the name 'x'. Next, try \n" ++
  "typing 'print x * 2;'. This will print 10.\n"

def new (session : Session) (prompt : String) : Console :=
  ⟨session, prompt, prompt, "", 1, 0⟩

def answer (command : Command) : Reply :=
  match command with
  | .help => ⟨.goesOn, helpText⟩
  | .exit => ⟨.stops, ""⟩
  | .endOfInput => ⟨.stops, "\n"⟩

/-- Takes a line of source text: keeps it if it leaves a parenthesis open, else runs it with the lines
that are pending. -/
def take (line : String) : EStateM Failure Console Unit := do
  let c ← get
  let number := c.lineNumber + 1
  let start := if c.pending = "" then number else c.startLine
  let (joined, unfinished) := joinLine c.pending line
  if unfinished then
    set { c with lineNumber := number, startLine := start, pending := joined,
                 prompt := secondaryPrompt }
  else
    let c := { c with lineNumber := number, startLine := start, pending := "",
                      prompt := c.primaryPrompt }
    match (Session.run joined start).run c.session with
    | .ok _ session => set { c with session }
    | .error f session =>
      set { c with session }
      throw f

/-- Settles a failure with the session's reporter. -/
def settle (f : Failure) (c : Console) : Outcome × Console :=
  let (verdict, reporter) : Verdict Empty × Reporter := c.session.reporter.settle (.failure f)
  let outcome := match verdict with
    | .settled => .goesOn
    | .ends code => .exits code
    | .passes (.failure f) => .fails f
    | .passes .interrupt => .goesOn
  (outcome, { c with session := { c.session with reporter } })

/-- Feeds one line to the console. -/
def feed (line : String) (c : Console) : Reply × Console :=
  let line := Text.strip line
  if line = "" then (⟨.goesOn, ""⟩, c)
  else
    match Command.ofWord? line with
    | some command => (answer command, c)
    | none =>
      match (take line).run c with
      | .ok _ c => (⟨.goesOn, ""⟩, c)
      | .error f c =>
        let (outcome, c) := settle f c
        (⟨outcome, ""⟩, c)

end Console

end LoxLang
