import LoxLang.Scope
import LoxLang.Diagnostic
import LoxLang.Value.Text

/-!
Scopes that share the scopes around them.

A scope is known by its number, which counts the scopes created before it. It stands alone or within
one that was created before, so a walk outwards is a walk down the list.
-/

set_option autoImplicit false
set_option relaxedAutoImplicit false

namespace LoxLang

structure Forest.Node where
  scope : Scope
  enclosing : Option Nat
  deriving DecidableEq, Repr

/-- The scopes, the one created last in front. -/
structure Forest where
  nodes : List Forest.Node
  deriving DecidableEq, Repr

namespace Forest

def empty : Forest := ⟨[]⟩

def size (f : Forest) : Nat := f.nodes.length

/-- A new scope within the scope `enclosing`, or a global one. -/
def create (enclosing : Option Nat) (f : Forest) : Forest :=
  ⟨⟨.empty, enclosing⟩ :: f.nodes⟩

def nodeIn? (i : Nat) : List Node → Option Node
  | [] => none
  | node :: older => if older.length = i then some node else nodeIn? i older

def scope? (f : Forest) (i : Nat) : Option Scope :=
  (nodeIn? i f.nodes).map Node.scope

def defineIn (name : String) (value : Value) (i : Nat) : List Node → List Node
  | [] => []
  | node :: older =>
    if older.length = i then ⟨node.scope.define name value, node.enclosing⟩ :: older
    else node :: defineIn name value i older

/-- Binds a name in scope `i`. -/
def define (f : Forest) (i : Nat) (name : String) (value : Value) : Forest :=
  ⟨defineIn name value i f.nodes⟩

/-- The value of a name in the nearest scope that binds it, from scope `i` outwards. -/
def getIn (name : Token) : List Node → Nat → Except Diagnostic Value
  | [], _ => .error (.undefinedVariable name)
  | node :: older, i =>
    if older.length = i then
      match node.scope.get? name.lexeme with
      | some value => .ok value
      | none =>
        match node.enclosing with
        | some e => getIn name older e
        | none => .error (.undefinedVariable name)
    else getIn name older i

/-- The value of a name as scope `i` sees it. -/
def get (f : Forest) (i : Nat) (name : Token) : Except Diagnostic Value :=
  getIn name f.nodes i

/-- Gives a name a new value in the nearest scope that binds it, from scope `i` outwards. -/
def assignIn (name : Token) (value : Value) : List Node → Nat → Except Diagnostic (List Node)
  | [], _ => .error (.undefinedVariable name)
  | node :: older, i =>
    if older.length = i then
      if node.scope.contains name.lexeme then
        .ok (⟨node.scope.define name.lexeme value, node.enclosing⟩ :: older)
      else
        match node.enclosing with
        | some e => (assignIn name value older e).map (node :: ·)
        | none => .error (.undefinedVariable name)
    else (assignIn name value older i).map (node :: ·)

/-- Gives a name that scope `i` sees a new value, and never binds it anew. -/
def assign (f : Forest) (i : Nat) (name : Token) (value : Value) : Except Diagnostic Forest :=
  (assignIn name value f.nodes i).map mk

/-- Whether scope `i` or one outwards binds the name. -/
def containsIn (name : String) : List Node → Nat → Bool
  | [], _ => false
  | node :: older, i =>
    if older.length = i then
      node.scope.contains name ||
        match node.enclosing with
        | some e => containsIn name older e
        | none => false
    else containsIn name older i

/-- Whether scope `i` sees the name. -/
def contains (f : Forest) (i : Nat) (name : String) : Bool :=
  containsIn name f.nodes i

/-! ### The text of a scope -/

def inspectBinding (b : String × Value) : Except Mishap String := do
  .ok (Text.quoted b.1 ++ ": " ++ (← b.2.inspect Text.quoted))

def inspectBindings (s : Scope) : Except Mishap String := do
  .ok ("\x7b" ++ ", ".intercalate (← s.bindings.mapM inspectBinding) ++ "\x7d")

def inspectIn : List Node → Option Nat → Except Mishap String
  | [], _ => .ok "None"
  | _, none => .ok "None"
  | node :: older, some i =>
    if older.length = i then do
      let bindings ← inspectBindings node.scope
      let enclosing ← inspectIn older node.enclosing
      .ok ("Environment(" ++ bindings ++ ", enclosing=" ++ enclosing ++ ")")
    else inspectIn older (some i)

/-- Scope `i` with its bindings, within the scopes around it. -/
def inspect (f : Forest) (i : Nat) : Except Mishap String :=
  inspectIn f.nodes (some i)

end Forest

end LoxLang
