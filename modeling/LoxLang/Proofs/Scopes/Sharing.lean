import LoxLang.Scope.Forest

/-!
Scopes that share the scopes around them.

What a scope sees of a name is settled by the nearest scope outwards that binds it
(`Forest.Nearest`). Every scope lies within an older one (`Forest.Nested`), whatever operations the
forest has gone through, so the search for that scope ends, and it finds the same scope in every
forest with the same enclosing scopes and the same names bound (`Forest.Nearest.of_same`). The walks
that read a name, write it or ask for it all end in that scope (`get_eq`, `assign_eq`,
`contains_eq`). From this follows what a scope sees after each operation, also after those on other
scopes (`lawful_performAll`).
-/

set_option autoImplicit false
set_option relaxedAutoImplicit false

namespace LoxLang.Forest

variable {f g : Forest} {node : Node} {nodes older : List Node} {name : String} {value : Value}
  {i j k : Nat}

/-! ### Scopes by their numbers -/

/-- The scope that encloses scope `i`. -/
def enclosing? (f : Forest) (i : Nat) : Option Nat :=
  (nodeIn? i f.nodes).bind Node.enclosing

/-- The value that scope `i` itself binds the name to. -/
def binding? (f : Forest) (i : Nat) (name : String) : Option Value :=
  (f.scope? i).bind (·.get? name)

theorem nodeIn?_eq_some_lt (h : nodeIn? i nodes = some node) : i < nodes.length := by
  induction nodes with
  | nil => cases h
  | cons newest older ih =>
    rw [nodeIn?] at h
    split at h
    · next hi => simp [hi]
    · exact Nat.lt_succ_of_lt (ih h)

theorem exists_nodeIn? (h : i < nodes.length) : ∃ node, nodeIn? i nodes = some node := by
  induction nodes with
  | nil => cases h
  | cons newest older ih =>
    rw [nodeIn?]
    split
    · exact ⟨newest, rfl⟩
    · next hi => exact ih (Nat.lt_of_le_of_ne (Nat.le_of_lt_succ h) fun heq ↦ hi heq.symm)

/-- A new scope leaves the older ones their numbers. -/
theorem nodeIn?_cons_of_lt (h : i < older.length) : nodeIn? i (node :: older) = nodeIn? i older :=
  if_neg (Nat.ne_of_gt h)

theorem length_defineIn (name : String) (value : Value) (i : Nat) (nodes : List Node) :
    (defineIn name value i nodes).length = nodes.length := by
  induction nodes with
  | nil => rfl
  | cons newest older ih =>
    rw [defineIn]
    split <;> simp [ih]

theorem nodeIn?_defineIn (name : String) (value : Value) (i j : Nat) (nodes : List Node) :
    nodeIn? j (defineIn name value i nodes) = (nodeIn? j nodes).map fun node ↦
      if j = i then ⟨node.scope.define name value, node.enclosing⟩ else node := by
  induction nodes with
  | nil => rfl
  | cons newest older ih =>
    by_cases hi : older.length = i
    · by_cases hj : older.length = j
      · simp [defineIn, nodeIn?, ← hi, ← hj]
      · -- The written scope is the newest one, so that scope `j` is an older one.
        have hne : j ≠ i := fun heq ↦ hj (hi.trans heq.symm)
        simp [defineIn, nodeIn?, hi, hne, hne.symm]
    · by_cases hj : older.length = j
      · have hne : j ≠ i := fun heq ↦ hi (hj.trans heq)
        simp [defineIn, nodeIn?, length_defineIn, hj, hne]
      · simp [defineIn, nodeIn?, hi, length_defineIn, hj, ih]

/-! ### The nearest scope that binds a name -/

/-- Scope `j` is the nearest one from scope `i` outwards that binds the name. -/
inductive Nearest (f : Forest) (name : String) : Nat → Nat → Prop
  | here {i : Nat} (h : (f.binding? i name).isSome) : Nearest f name i i
  | outward {i e j : Nat} (h : f.binding? i name = none) (he : f.enclosing? i = some e)
    (hj : Nearest f name e j) : Nearest f name i j

theorem Nearest.bound (h : f.Nearest name i j) : (f.binding? j name).isSome := by
  induction h with
  | here h => exact h
  | outward _ _ _ ih => exact ih

/-- Values do not matter to the search. -/
theorem Nearest.of_same (henclosing : ∀ i, g.enclosing? i = f.enclosing? i)
    (hbound : ∀ i, (g.binding? i name).isSome = (f.binding? i name).isSome)
    (h : f.Nearest name i j) : g.Nearest name i j := by
  induction h with
  | here h => exact .here ((hbound _).trans h)
  | @outward i e j h he _ ih =>
    refine .outward ?_ ((henclosing i).trans he) ih
    simpa [h] using hbound i

/-- The number of the nearest scope that binds the name, from scope `i` outwards. -/
def ownerIn? (name : String) : List Node → Nat → Option Nat
  | [], _ => none
  | node :: older, i =>
    if older.length = i then
      if node.scope.contains name then some i
      else node.enclosing.bind (ownerIn? name older)
    else ownerIn? name older i

def owner? (f : Forest) (i : Nat) (name : String) : Option Nat :=
  ownerIn? name f.nodes i

/-- Each scope lies within one that was created before it. -/
def Nested (f : Forest) : Prop :=
  ∀ i e, f.enclosing? i = some e → e < i

theorem Nested.tail (h : Nested ⟨node :: older⟩) : Nested ⟨older⟩ := by
  intro i e he
  obtain ⟨inner, hinner, -⟩ := Option.bind_eq_some_iff.mp he
  apply h i e
  rwa [enclosing?, nodeIn?_cons_of_lt (nodeIn?_eq_some_lt hinner)]

/-- Below a newer scope the search from an older one is the same. -/
theorem bind_ownerIn?_cons {enclosing : Option Nat} (h : ∀ e ∈ enclosing, e < older.length) :
    enclosing.bind (ownerIn? name (node :: older)) = enclosing.bind (ownerIn? name older) := by
  cases enclosing with
  | none => rfl
  | some e => exact if_neg (Nat.ne_of_gt (h e rfl))

/-- The walk down the list of scopes is a walk outwards. -/
theorem ownerIn?_eq (h : Nested ⟨nodes⟩) (name : String) (i : Nat) :
    ownerIn? name nodes i = (nodeIn? i nodes).bind fun node ↦
      if node.scope.contains name then some i else node.enclosing.bind (ownerIn? name nodes) := by
  induction nodes generalizing i with
  | nil => rfl
  | cons newest older ih =>
    by_cases hi : older.length = i
    · have henclosing : ∀ e ∈ newest.enclosing, e < older.length := by
        intro e he
        rw [hi]
        exact h i e (by simpa [enclosing?, nodeIn?, hi] using he)
      rw [nodeIn?, if_pos hi, Option.bind_some, bind_ownerIn?_cons henclosing, ownerIn?, if_pos hi]
    · rw [ownerIn?, if_neg hi, ih h.tail, nodeIn?, if_neg hi]
      cases hnode : nodeIn? i older with
      | none => rfl
      | some node =>
        have henclosing : ∀ e ∈ node.enclosing, e < older.length := by
          intro e he
          have hlt : e < i := h.tail i e (by simpa [enclosing?, hnode] using he)
          exact Nat.lt_trans hlt (nodeIn?_eq_some_lt hnode)
        rw [Option.bind_some, Option.bind_some, bind_ownerIn?_cons henclosing]

theorem owner?_of_bound (h : f.Nested) (hbound : (f.binding? i name).isSome) :
    f.owner? i name = some i := by
  rw [owner?, ownerIn?_eq h]
  cases hnode : nodeIn? i f.nodes with
  | none => simp [binding?, scope?, hnode] at hbound
  | some node =>
    have hcontains : node.scope.contains name = true := by
      simpa [binding?, scope?, hnode, Scope.contains] using hbound
    simp [hcontains]

theorem owner?_of_unbound (h : f.Nested) (hunbound : f.binding? i name = none) :
    f.owner? i name = (f.enclosing? i).bind (f.owner? · name) := by
  rw [owner?, ownerIn?_eq h, enclosing?]
  cases hnode : nodeIn? i f.nodes with
  | none => rfl
  | some node =>
    have hcontains : node.scope.contains name = false := by
      simpa [binding?, scope?, hnode, Scope.contains] using hunbound
    simp [hcontains, owner?]

theorem owner?_eq_some_iff (h : f.Nested) : f.owner? i name = some j ↔ f.Nearest name i j := by
  constructor
  · intro howner
    induction i using Nat.strongRecOn with
    | ind i ih =>
      cases hbinding : f.binding? i name with
      | some value =>
        rw [owner?_of_bound h (by simp [hbinding])] at howner
        obtain rfl := Option.some.inj howner
        exact .here (by simp [hbinding])
      | none =>
        rw [owner?_of_unbound h hbinding] at howner
        obtain ⟨e, he, howner⟩ := Option.bind_eq_some_iff.mp howner
        exact .outward hbinding he (ih e (h i e he) howner)
  · intro hnearest
    induction hnearest with
    | here hbound => exact owner?_of_bound h hbound
    | outward hunbound he _ ih => rw [owner?_of_unbound h hunbound, he, Option.bind_some, ih]

/-! ### Three walks to the nearest scope -/

theorem lt_length_of_ownerIn? (h : ownerIn? name nodes i = some j) : j < nodes.length := by
  induction nodes generalizing i with
  | nil => cases h
  | cons node older ih =>
    rw [ownerIn?] at h
    split at h
    · next hi =>
      split at h
      · obtain rfl := Option.some.inj h
        rw [List.length_cons, hi]
        exact Nat.lt_succ_self i
      · obtain ⟨e, -, howner⟩ := Option.bind_eq_some_iff.mp h
        exact Nat.lt_succ_of_lt (ih howner)
    · exact Nat.lt_succ_of_lt (ih h)

theorem containsIn_eq (name : String) (nodes : List Node) (i : Nat) :
    containsIn name nodes i = (ownerIn? name nodes i).isSome := by
  induction nodes generalizing i with
  | nil => rfl
  | cons node older ih =>
    rw [containsIn, ownerIn?]
    split
    · cases hcontains : node.scope.contains name with
      | true => rfl
      | false =>
        cases node.enclosing with
        | none => rfl
        | some e => simpa using ih e
    · exact ih i

/-- A walk that goes on in the older scopes reads a binding of one of them. -/
theorem bind_nodeIn?_cons {found : Option Nat} (h : ∀ k ∈ found, k < older.length)
    (look : Node → Option Value) :
    (found.bind fun k ↦ (nodeIn? k (node :: older)).bind look) =
      found.bind fun k ↦ (nodeIn? k older).bind look := by
  cases found with
  | none => rfl
  | some k => rw [Option.bind_some, Option.bind_some, nodeIn?_cons_of_lt (h k rfl)]

theorem getIn_eq (t : Token) (nodes : List Node) (i : Nat) :
    getIn t nodes i =
      match (ownerIn? t.lexeme nodes i).bind fun k ↦
        (nodeIn? k nodes).bind (·.scope.get? t.lexeme) with
      | some value => .ok value
      | none => .error (.undefinedVariable t) := by
  induction nodes generalizing i with
  | nil => rfl
  | cons node older ih =>
    rw [getIn, ownerIn?]
    split
    · next hi =>
      cases hbinding : node.scope.get? t.lexeme with
      | some value => simp [Scope.contains, hbinding, nodeIn?, hi]
      | none =>
        have hcontains : node.scope.contains t.lexeme = false := by simp [Scope.contains, hbinding]
        rw [hcontains, if_neg Bool.false_ne_true]
        cases node.enclosing with
        | none => rfl
        | some e =>
          rw [Option.bind_some, bind_nodeIn?_cons fun k ↦ lt_length_of_ownerIn?]
          exact ih e
    · rw [bind_nodeIn?_cons fun k ↦ lt_length_of_ownerIn?]
      exact ih i

/-- A walk that goes on in the older scopes writes a binding of one of them. -/
theorem map_cons_defineIn (name : String) (value : Value) (d : Diagnostic) (found : Option Nat) :
    (∀ k ∈ found, k < older.length) →
      Except.map (node :: ·) (match found with
        | some k => .ok (defineIn name value k older)
        | none => .error d) =
      match found with
        | some k => .ok (defineIn name value k (node :: older))
        | none => .error d := by
  -- Before the colon the hypothesis would become part of both matches.
  intro h
  cases found with
  | none => rfl
  | some k =>
    dsimp only
    rw [defineIn, if_neg (Nat.ne_of_gt (h k rfl))]
    rfl

theorem assignIn_eq (t : Token) (value : Value) (nodes : List Node) (i : Nat) :
    assignIn t value nodes i =
      match ownerIn? t.lexeme nodes i with
      | some k => .ok (defineIn t.lexeme value k nodes)
      | none => .error (.undefinedVariable t) := by
  induction nodes generalizing i with
  | nil => rfl
  | cons node older ih =>
    rw [assignIn, ownerIn?]
    split
    · next hi =>
      cases hcontains : node.scope.contains t.lexeme with
      | true => simp [defineIn, hi]
      | false =>
        rw [if_neg Bool.false_ne_true, if_neg Bool.false_ne_true]
        cases node.enclosing with
        | none => rfl
        | some e =>
          dsimp only
          rw [ih e, map_cons_defineIn _ _ _ _ fun k ↦ lt_length_of_ownerIn?]
          rfl
    · rw [ih i, map_cons_defineIn _ _ _ _ fun k ↦ lt_length_of_ownerIn?]

theorem contains_eq (f : Forest) (i : Nat) (name : String) :
    f.contains i name = (f.owner? i name).isSome :=
  containsIn_eq name f.nodes i

theorem get_eq (f : Forest) (i : Nat) (t : Token) :
    f.get i t = match (f.owner? i t.lexeme).bind (f.binding? · t.lexeme) with
      | some value => .ok value
      | none => .error (.undefinedVariable t) := by
  rw [get, getIn_eq]
  simp only [owner?, binding?, scope?, Option.bind_map]
  rfl

theorem assign_eq (f : Forest) (i : Nat) (t : Token) (value : Value) :
    f.assign i t value = match f.owner? i t.lexeme with
      | some owner => .ok (f.define owner t.lexeme value)
      | none => .error (.undefinedVariable t) := by
  rw [assign, assignIn_eq, owner?]
  cases ownerIn? t.lexeme f.nodes i <;> rfl

/-- A scope that does not bind a name sees it as the scope around it does. -/
theorem get_outward (h : f.Nested) (i : Nat) (t : Token) :
    f.get i t = match f.binding? i t.lexeme with
      | some value => .ok value
      | none =>
        match f.enclosing? i with
        | some e => f.get e t
        | none => .error (.undefinedVariable t) := by
  rw [get_eq]
  cases hbinding : f.binding? i t.lexeme with
  | some value => rw [owner?_of_bound h (by simp [hbinding]), Option.bind_some, hbinding]
  | none =>
    rw [owner?_of_unbound h hbinding]
    cases f.enclosing? i with
    | none => rfl
    | some e => exact (get_eq f e t).symm

theorem assign_outward (h : f.Nested) (i : Nat) (t : Token) (value : Value) :
    f.assign i t value =
      if (f.binding? i t.lexeme).isSome then .ok (f.define i t.lexeme value)
      else
        match f.enclosing? i with
        | some e => f.assign e t value
        | none => .error (.undefinedVariable t) := by
  rw [assign_eq]
  cases hbinding : f.binding? i t.lexeme with
  | some value => rw [owner?_of_bound h (by simp [hbinding]), Option.isSome_some, if_pos rfl]
  | none =>
    rw [owner?_of_unbound h hbinding, Option.isSome_none, if_neg Bool.false_ne_true]
    cases f.enclosing? i with
    | none => rfl
    | some e => exact (assign_eq f e t value).symm

theorem contains_outward (h : f.Nested) (i : Nat) (name : String) :
    f.contains i name =
      ((f.binding? i name).isSome || (f.enclosing? i).any (f.contains · name)) := by
  rw [contains_eq]
  cases hbinding : f.binding? i name with
  | some value => rw [owner?_of_bound h (by simp [hbinding]), Option.isSome_some,
      Option.isSome_some, Bool.true_or]
  | none =>
    rw [owner?_of_unbound h hbinding, Option.isSome_none, Bool.false_or]
    cases f.enclosing? i with
    | none => rfl
    | some e => exact (contains_eq f e name).symm

/-! ### New scopes -/

/-- `g` is `f` with one more scope, which binds no name. -/
structure Adds (f : Forest) (enclosing : Option Nat) (g : Forest) : Prop where
  size : g.size = f.size + 1
  enclosing?_new : g.enclosing? f.size = enclosing
  binding?_new : ∀ name, g.binding? f.size name = none
  enclosing? : ∀ j < f.size, g.enclosing? j = f.enclosing? j
  binding? : ∀ j < f.size, ∀ name, g.binding? j name = f.binding? j name

theorem adds_create (f : Forest) (enclosing : Option Nat) :
    f.Adds enclosing (f.create enclosing) where
  size := rfl
  enclosing?_new := by simp [Forest.enclosing?, create, nodeIn?, Forest.size]
  binding?_new name := by simp [Forest.binding?, scope?, create, nodeIn?, Forest.size]
  enclosing? j hj := by rw [Forest.enclosing?, create, nodeIn?_cons_of_lt hj, Forest.enclosing?]
  binding? j hj name := by
    rw [Forest.binding?, scope?, create, nodeIn?_cons_of_lt hj, Forest.binding?, scope?]

/-! ### Writing a binding -/

/-- `g` is `f` but for the value of one name in scope `i`. -/
structure Writes (f : Forest) (i : Nat) (name : String) (value : Value) (g : Forest) : Prop where
  size : g.size = f.size
  enclosing? : ∀ j, g.enclosing? j = f.enclosing? j
  binding? : ∀ j other, g.binding? j other =
    if j = i ∧ other = name then some value else f.binding? j other

theorem writes_define (hi : i < f.size) (name : String) (value : Value) :
    f.Writes i name value (f.define i name value) where
  size := length_defineIn name value i f.nodes
  enclosing? j := by
    rw [Forest.enclosing?, define, nodeIn?_defineIn, Forest.enclosing?]
    cases nodeIn? j f.nodes with
    | none => rfl
    | some node => by_cases hj : j = i <;> simp [hj]
  binding? j other := by
    rw [Forest.binding?, scope?, define, nodeIn?_defineIn, Forest.binding?, scope?]
    obtain ⟨written, hwritten⟩ := exists_nodeIn? hi
    by_cases hj : j = i
    · simp [hj, hwritten]
    · simp [hj]

theorem Writes.nested (h : f.Writes i name value g) (hf : f.Nested) : g.Nested :=
  fun j e he ↦ hf j e ((h.enclosing? j).symm.trans he)

/-- Where the name had a value before, every search ends where it did. -/
theorem Writes.owner?_eq (h : f.Writes i name value g) (hf : f.Nested)
    (hbound : (f.binding? i name).isSome) (j : Nat) (other : String) :
    g.owner? j other = f.owner? j other := by
  have hsame (k : Nat) : (g.binding? k other).isSome = (f.binding? k other).isSome := by
    rw [h.binding?]
    split
    · next hk => rw [hk.1, hk.2, hbound, Option.isSome_some]
    · rfl
  apply Option.ext
  intro owner
  rw [owner?_eq_some_iff (h.nested hf), owner?_eq_some_iff hf]
  exact ⟨Nearest.of_same (fun k ↦ (h.enclosing? k).symm) fun k ↦ (hsame k).symm,
    Nearest.of_same h.enclosing? hsame⟩

theorem get_of_nearest (h : f.Nested) {t : Token} (hj : f.Nearest t.lexeme i j)
    (hvalue : f.binding? j t.lexeme = some value) : f.get i t = .ok value := by
  rw [get_eq, (owner?_eq_some_iff h).mpr hj, Option.bind_some, hvalue]

theorem get_of_owner?_eq_none {t : Token} (h : f.owner? i t.lexeme = none) :
    f.get i t = .error (.undefinedVariable t) := by
  rw [get_eq, h, Option.bind_none]

/-- A scope sees the new value where the written scope is the nearest one with the name, and nothing
else changes. -/
theorem Writes.get_eq_of_not (h : f.Writes i name value g) (hf : f.Nested)
    (hbound : (f.binding? i name).isSome) {t : Token}
    (hnot : ¬ (t.lexeme = name ∧ f.Nearest name j i)) : g.get j t = f.get j t := by
  rw [get_eq, get_eq, h.owner?_eq hf hbound]
  cases howner : f.owner? j t.lexeme with
  | none => rfl
  | some owner =>
    rw [Option.bind_some, Option.bind_some, h.binding?, if_neg]
    rintro ⟨rfl, rfl⟩
    exact hnot ⟨rfl, (owner?_eq_some_iff hf).mp howner⟩

/-! ### Operations -/

/-- What can be done with scopes, which are given by their numbers. -/
inductive Operation
  | create (enclosing : Option Nat)
  | define (i : Nat) (name : String) (value : Value)
  | assign (i : Nat) (name : Token) (value : Value)
  | get (i : Nat) (name : Token)
  | contains (i : Nat) (name : String)
  deriving DecidableEq, Repr

inductive Answer
  | created (i : Nat)
  | done
  | found (value : Value)
  | held (bound : Bool)
  deriving DecidableEq, Repr

namespace Operation

/-- The answer of an operation, and the forest after it. -/
def perform (f : Forest) : Operation → Except Diagnostic Answer × Forest
  | create enclosing => (.ok (.created f.size), f.create enclosing)
  | define i name value => (.ok .done, f.define i name value)
  | assign i name value =>
    match f.assign i name value with
    | .ok g => (.ok .done, g)
    | .error d => (.error d, f)
  | get i name => (Answer.found <$> f.get i name, f)
  | contains i name => (.ok (.held (f.contains i name)), f)

/-- The operation is on scopes that there are. -/
def Fits (f : Forest) : Operation → Prop
  | create enclosing => ∀ e ∈ enclosing, e < f.size
  | define i _ _ | assign i _ _ | get i _ | contains i _ => i < f.size

/-- The token that an operation looks up. -/
def token? : Operation → Option Token
  | assign _ name _ | get _ name => some name
  | _ => none

end Operation

/-- The forest after operations in turn. -/
def performAll (f : Forest) (ops : List Operation) : Forest :=
  ops.foldl (fun f op ↦ (op.perform f).2) f

/-- Each of the operations is on scopes that there are when its turn comes. -/
def FitAll : Forest → List Operation → Prop
  | _, [] => True
  | f, op :: ops => op.Fits f ∧ FitAll (op.perform f).2 ops

theorem nested_empty : Nested .empty := fun _ _ he ↦ by cases he

theorem nested_create {enclosing : Option Nat} (h : f.Nested)
    (hfits : ∀ e ∈ enclosing, e < f.size) : (f.create enclosing).Nested := by
  intro i e he
  by_cases hi : f.nodes.length = i
  · have henclosing : enclosing = some e := by
      simpa [enclosing?, create, nodeIn?, hi] using he
    exact hi ▸ hfits e henclosing
  · apply h i e
    simpa [enclosing?, create, nodeIn?, hi] using he

theorem lt_size_of_bound (h : (f.binding? i name).isSome) : i < f.size := by
  cases hnode : nodeIn? i f.nodes with
  | none => simp [binding?, scope?, hnode] at h
  | some node => exact nodeIn?_eq_some_lt hnode

/-- An assignment writes the nearest scope that binds the name. -/
theorem writes_of_assign (h : f.Nested) {t : Token} (hg : f.assign i t value = .ok g) :
    ∃ owner, f.Nearest t.lexeme i owner ∧ f.Writes owner t.lexeme value g := by
  rw [assign_eq] at hg
  cases howner : f.owner? i t.lexeme with
  | none =>
    rw [howner] at hg
    cases hg
  | some owner =>
    rw [howner] at hg
    obtain rfl := Except.ok.inj hg
    have hnearest := (owner?_eq_some_iff h).mp howner
    exact ⟨owner, hnearest, writes_define (lt_size_of_bound hnearest.bound) _ _⟩

theorem nested_perform {op : Operation} (h : f.Nested) (hfits : op.Fits f) :
    (op.perform f).2.Nested := by
  cases op with
  | create enclosing => exact nested_create h hfits
  | define i name value => exact (writes_define hfits name value).nested h
  | assign i t value =>
    rw [Operation.perform]
    cases hassign : f.assign i t value with
    | error d => exact h
    | ok g =>
      obtain ⟨owner, -, hwrites⟩ := writes_of_assign h hassign
      exact hwrites.nested h
  | get | contains => exact h

theorem nested_performAll {ops : List Operation} (h : f.Nested) (hfit : FitAll f ops) :
    (performAll f ops).Nested := by
  induction ops generalizing f with
  | nil => exact h
  | cons op ops ih => exact ih (nested_perform h hfit.1) hfit.2

/-- What holds of the operations on a forest. -/
structure Lawful (f : Forest) : Prop where
  contains_iff_get : ∀ (i : Nat) (t : Token),
    f.contains i t.lexeme = true ↔ ∃ value, f.get i t = .ok value
  contains_iff_assign : ∀ (i : Nat) (t : Token) (value : Value),
    f.contains i t.lexeme = true ↔ ∃ g, f.assign i t value = .ok g
  /-- The value comes from the nearest scope that binds the name. -/
  get_iff : ∀ (i : Nat) (t : Token) (value : Value), f.get i t = .ok value ↔
    ∃ owner, f.Nearest t.lexeme i owner ∧ f.binding? owner t.lexeme = some value
  create : ∀ enclosing, f.Adds enclosing (f.create enclosing)
  define : ∀ i < f.size, ∀ name value, f.Writes i name value (f.define i name value)
  /-- An assignment writes a binding that there is, which is seen where no nearer one is. -/
  assign : ∀ (i : Nat) (t : Token) (value : Value) (g : Forest), f.assign i t value = .ok g →
    ∃ owner, f.Nearest t.lexeme i owner ∧ (f.binding? owner t.lexeme).isSome ∧
      f.Writes owner t.lexeme value g ∧
      (∀ (j : Nat) (u : Token), u.lexeme = t.lexeme → f.Nearest t.lexeme j owner →
        g.get j u = .ok value) ∧
      ∀ (j : Nat) (u : Token), ¬ (u.lexeme = t.lexeme ∧ f.Nearest t.lexeme j owner) →
        g.get j u = f.get j u
  failure : ∀ (op : Operation) (d : Diagnostic), (op.perform f).1 = .error d →
    (op.perform f).2 = f ∧ ∃ t, op.token? = some t ∧ d = .undefinedVariable t

theorem contains_iff_nearest (h : f.Nested) :
    f.contains i name = true ↔ ∃ owner, f.Nearest name i owner := by
  simp only [contains_eq, Option.isSome_iff_exists, owner?_eq_some_iff h]

theorem get_eq_ok_iff (h : f.Nested) {t : Token} : f.get i t = .ok value ↔
    ∃ owner, f.Nearest t.lexeme i owner ∧ f.binding? owner t.lexeme = some value := by
  constructor
  · intro hget
    cases howner : f.owner? i t.lexeme with
    | none =>
      rw [get_of_owner?_eq_none howner] at hget
      cases hget
    | some owner =>
      have hnearest := (owner?_eq_some_iff h).mp howner
      obtain ⟨found, hfound⟩ := Option.isSome_iff_exists.mp hnearest.bound
      rw [get_of_nearest h hnearest hfound] at hget
      exact ⟨owner, hnearest, hfound.trans (congrArg some (Except.ok.inj hget))⟩
  · rintro ⟨owner, hnearest, hvalue⟩
    exact get_of_nearest h hnearest hvalue

/-- An operation fails only at a name that is not bound, and changes nothing then. -/
theorem perform_eq_error {op : Operation} {d : Diagnostic} (h : (op.perform f).1 = .error d) :
    (op.perform f).2 = f ∧ ∃ t, op.token? = some t ∧ d = .undefinedVariable t := by
  cases op with
  | create | define | contains => cases h
  | assign i t value =>
    rw [Operation.perform, assign_eq] at h ⊢
    cases howner : f.owner? i t.lexeme with
    | some owner =>
      rw [howner] at h
      cases h
    | none =>
      rw [howner] at h
      exact ⟨rfl, t, rfl, (Except.error.inj h).symm⟩
  | get i t =>
    refine ⟨rfl, t, rfl, ?_⟩
    rw [Operation.perform, get_eq] at h
    split at h
    · cases h
    · exact (Except.error.inj h).symm

theorem Nested.lawful (h : f.Nested) : f.Lawful where
  contains_iff_get i t := by
    simp only [contains_iff_nearest h, get_eq_ok_iff h]
    constructor
    · rintro ⟨owner, hnearest⟩
      obtain ⟨value, hvalue⟩ := Option.isSome_iff_exists.mp hnearest.bound
      exact ⟨value, owner, hnearest, hvalue⟩
    · rintro ⟨_, owner, hnearest, -⟩
      exact ⟨owner, hnearest⟩
  contains_iff_assign i t value := by
    rw [contains_eq, assign_eq]
    cases f.owner? i t.lexeme <;> simp
  get_iff i t value := get_eq_ok_iff h
  create enclosing := f.adds_create enclosing
  define i hi name value := writes_define hi name value
  assign i t value g hg := by
    obtain ⟨owner, hnearest, hwrites⟩ := writes_of_assign h hg
    refine ⟨owner, hnearest, hnearest.bound, hwrites, fun j u hu hj ↦ ?_, fun j u hnot ↦ ?_⟩
    · rw [get_eq, hwrites.owner?_eq h hnearest.bound, hu, (owner?_eq_some_iff h).mpr hj,
        Option.bind_some, hwrites.binding?, if_pos ⟨rfl, rfl⟩]
    · exact hwrites.get_eq_of_not h hnearest.bound hnot
  failure op d hd := perform_eq_error hd

/-- Whatever scopes are created, written and looked up, each within others or not, the operations on
the forest that comes of it keep to what they write and see. -/
theorem lawful_performAll (ops : List Operation) (h : FitAll .empty ops) :
    (performAll .empty ops).Lawful :=
  (nested_performAll nested_empty h).lawful

/-- Two scopes within one, in which the one writes what the other one sees until it binds the name
itself. -/
theorem lawful_performAll_of_siblings :
    let x : Token := ⟨.identifier, "x", .nil, 1⟩
    let ops : List Operation := [.create none, .create (some 0), .create (some 0),
      .define 0 "x" .nil, .assign 1 x (.integer 1), .get 2 x, .define 2 "x" (.integer 2),
      .assign 1 x (.integer 3), .contains 2 "y", .get 2 x]
    FitAll .empty ops ∧ (performAll .empty ops).Lawful := by
  intro x ops
  have hfit : FitAll .empty ops := by
    simp only [ops, FitAll, Operation.Fits]
    decide
  exact ⟨hfit, lawful_performAll ops hfit⟩

end LoxLang.Forest
