import LoxLang.Proofs.Lexing.Progress
import LoxLang.Proofs.Recursion

/-!
Reading a text by numbers.

Instead of a text that is cut in three, a lexer may keep the whole text with the number of the
character at which the lexeme starts and of the one that is next, and read in loops that go on as
long as a condition holds (`Indexed.Reader`). Nothing in such a lexer keeps its numbers within the
text or its loops from going on for ever. It does as the lexer over cursors does (`Follows`),
because each turn of a loop passes a character (`follows_loop`): so its loops end, and its numbers
are those of a cursor.
-/

set_option autoImplicit false
set_option relaxedAutoImplicit false

namespace LoxLang.Source

open Filter (atTop)
open Token.Kind (ofWord ofSingle? ofDouble?)

/-- A text with the numbers of the characters before the lexeme and before the next character. The
tokens stand in the order in which they were found. -/
structure Indexed where
  text : List Char
  start : Nat
  current : Nat
  line : Nat
  tokens : List Token
  deriving DecidableEq, Repr

/-- The numbers of a cursor. -/
def Cursor.indexed (c : Cursor) : Indexed :=
  ⟨c.source, c.start, c.position, c.line, c.tokens.reverse⟩

namespace Indexed

/-- A lexer by numbers, which may go on for ever. -/
abbrev Reader := ExceptT Failure (StateT Indexed Option)

variable {α β : Type}

/-! ### The lexer by numbers -/

/-- The next character; beyond the end stands the null character. -/
def next (i : Indexed) : Char :=
  i.text[i.current]?.getD '\x00'

def afterNext (i : Indexed) : Char :=
  i.text[i.current + 1]?.getD '\x00'

def isSpent (i : Indexed) : Bool :=
  i.text.length ≤ i.current

/-- The characters from one number up to another one. -/
def slice (i : Indexed) (first last : Nat) : List Char :=
  (i.text.take last).drop first

def lexeme (i : Indexed) : List Char :=
  i.slice i.start i.current

noncomputable section

namespace Reader

def fail (fault : Diagnostic.LexicalFault) (line : Nat) (lexeme : String) : Reader α :=
  throw (.diagnostic (.atText (.lexical fault) line lexeme))

def emit (kind : Token.Kind) (literal : Value := .nil) : Reader Unit :=
  modify fun i ↦
    { i with tokens := i.tokens ++ [⟨kind, String.ofList i.lexeme, literal, i.line⟩] }

def mark : Reader Unit :=
  modify fun i ↦ { i with start := i.current }

def skip (n : Nat) : Reader Unit :=
  modify fun i ↦ { i with current := i.current + n }

def newLine : Reader Unit :=
  modify fun i ↦ { i with line := i.line + 1 }

/-- Takes the next character, of which there must be one. -/
def take : Reader Char := do
  let i ← get
  match i.text[i.current]? with
  | none => throw (.mishap .textExhausted)
  | some x =>
    skip 1
    return x

/-- Takes the next character for no use. -/
def pass : Reader Unit := do
  let _ ← take
  return ()

def accept (expected : Char) : Reader Bool := do
  let i ← get
  if i.text[i.current]? = some expected then
    skip 1
    return true
  else
    return false

/-- Takes turns as long as the condition holds, if that is for fewer turns than the number. -/
def loopWithin (condition : Indexed → Bool) (turn : Reader Unit) : Nat → Reader Unit
  | 0 => fun _ ↦ none
  | turns + 1 => do
    if condition (← get) then
      turn
      loopWithin condition turn turns
    else
      return ()

/-- Takes turns as long as the condition holds, and has no result if it always does. -/
def loop (condition : Indexed → Bool) (turn : Reader Unit) : Reader Unit := fun i ↦
  ending fun turns ↦ loopWithin condition turn turns i

def takeWhile (p : Char → Bool) : Reader Unit :=
  loop (fun i ↦ p i.next) pass

def skipLine : Reader Unit :=
  loop (fun i ↦ i.next != '\n' && !i.isSpent) pass

/-- Takes a character of a block comment that began on the given line. -/
def passInComment (line : Nat) : Reader Unit := do
  if (← get).isSpent then
    fail .unterminatedComment line ""
  else
    if (← take) = '\n' then newLine

def skipBlock : Reader Unit := do
  loop (fun i ↦ !(i.next == '*' && i.afterNext == '/')) (passInComment (← get).line)
  skip 2

/-- Takes a character of a string. -/
def passInString : Reader Unit := do
  if (← get).next = '\n' then newLine
  pass

def quotedText : Reader Unit := do
  loop (fun i ↦ i.next != '"' && !i.isSpent) passInString
  let i ← get
  if i.isSpent then
    fail .unterminatedString i.line ""
  else
    pass
    let i ← get
    emit .string (.string (String.ofList (i.slice (i.start + 1) (i.current - 1))))

def numeral : Reader Unit := do
  takeWhile isDigit
  let i ← get
  let fractional := i.next = '.' && isDigit i.afterNext
  if fractional then
    pass
    takeWhile isDigit
  let i ← get
  let literal? :=
    if fractional then (Decimal.readFraction? i.lexeme).map Value.float
    else (Decimal.readInteger? i.lexeme).map Value.integer
  match literal? with
  | some literal => emit .number literal
  | none => fail .malformedNumber i.line (String.ofList i.lexeme)

def word : Reader Unit := do
  takeWhile isAlphaNumeric
  emit (ofWord (String.ofList (← get).lexeme))

def step : Reader Unit := do
  let x ← take
  if let some kind := ofSingle? x then
    emit kind
  else if let some (joined, single) := ofDouble? x then
    emit (if ← accept '=' then joined else single)
  else if x = '/' then
    if ← accept '/' then skipLine
    else if ← accept '*' then skipBlock
    else emit .slash
  else if x = ' ' || x = '\r' || x = '\t' then
    pure ()
  else if x = '\n' then
    newLine
  else if x = '"' then
    quotedText
  else if isDigit x then
    numeral
  else if isAlpha x then
    word
  else
    fail .unexpectedCharacter (← get).line (String.singleton x)

def tokens : Reader (List Token) := do
  loop (fun i ↦ !i.isSpent) do
    mark
    step
  modify fun i ↦ { i with tokens := i.tokens ++ [⟨.endOfText, "", .nil, i.line⟩] }
  return (← get).tokens

end Reader

end

end Indexed

/-! ### Doing alike -/

open Indexed (Reader)

variable {α β : Type} {c c' : Cursor}

/-- How the lexer ends that begins at a cursor, by numbers. -/
def Lexer.outcome (p : Lexer α) (c : Cursor) : Except Failure α × Indexed :=
  match p.run c with
  | .ok a c' => (.ok a, c'.indexed)
  | .error f c' => (.error f, c'.indexed)

/-- From `c` the lexer by numbers ends, and as the lexer over cursors does. -/
def Follows (c : Cursor) (x : Reader α) (p : Lexer α) : Prop :=
  x c.indexed = some (p.outcome c)

theorem follows_pure (c : Cursor) (a : α) : Follows c (pure a) (pure a) :=
  rfl

theorem follows_throw (c : Cursor) (f : Failure) : Follows c (throw f : Reader α) (throw f) :=
  rfl

theorem follows_of_get {f : Indexed → Reader α} {g : Cursor → Lexer α}
    (h : Follows c (f c.indexed) (g c)) : Follows c (get >>= f) (get >>= g) :=
  h

/-- A lexer by numbers may look at them where the other one has no need to. -/
theorem follows_of_look {f : Indexed → Reader α} {p : Lexer α} (h : Follows c (f c.indexed) p) :
    Follows c (get >>= f) p :=
  h

theorem follows_modify {u : Indexed → Indexed} {v : Cursor → Cursor}
    (h : (v c).indexed = u c.indexed) : Follows c (modify u) (modify v) :=
  congrArg (fun i ↦ some (Except.ok (), i)) h.symm

theorem follows_set {u : Indexed → Indexed} (h : c'.indexed = u c.indexed) :
    Follows c (modify u) (set c') :=
  congrArg (fun i ↦ some (Except.ok (), i)) h.symm

theorem Follows.bind {x : Reader α} {p : Lexer α} {f : α → Reader β} {g : α → Lexer β}
    (h : Follows c x p) (hf : ∀ a c', p.run c = .ok a c' → Follows c' (f a) (g a)) :
    Follows c (x >>= f) (p >>= g) := by
  unfold Follows Lexer.outcome at h
  unfold Follows Lexer.outcome
  rw [unbounded_bind_apply, h, EStateM.run_bind]
  cases hrun : p.run c with
  | error e c' => rfl
  | ok a c' => exact hf a c' hrun

theorem Follows.of_run_eq {x : Reader α} {p q : Lexer α} (h : Follows c x p)
    (hrun : q.run c = p.run c) : Follows c x q := by
  unfold Follows Lexer.outcome
  rw [hrun]
  exact h

/-! ### The numbers of a cursor -/

namespace Cursor

theorem indexed_eq (c : Cursor) : c.indexed =
    ⟨c.before.reverse ++ c.lexeme.reverse ++ c.rest, c.before.length,
      c.before.length + c.lexeme.length, c.line, c.tokens.reverse⟩ :=
  rfl

/-- Behind the position stands the rest. -/
theorem getElem?_indexed (c : Cursor) (n : Nat) :
    c.indexed.text[c.indexed.current + n]? = c.rest[n]? := by
  have hlength : (c.before.reverse ++ c.lexeme.reverse).length = c.indexed.current := by
    simp [indexed_eq]
  rw [indexed_eq] at hlength ⊢
  rw [List.getElem?_append_right (by omega)]
  congr 1
  omega

/-- The next character is that of the current number. -/
theorem getElem?_current (c : Cursor) : c.indexed.text[c.indexed.current]? = c.rest.head? := by
  have h := c.getElem?_indexed 0
  rwa [Nat.add_zero, ← List.head?_eq_getElem?] at h

@[simp]
theorem next_indexed (c : Cursor) : c.indexed.next = c.next := by
  rw [Indexed.next, c.getElem?_current, next, List.headD_eq_head?_getD]

@[simp]
theorem afterNext_indexed (c : Cursor) : c.indexed.afterNext = c.afterNext := by
  rw [Indexed.afterNext, c.getElem?_indexed 1, afterNext, List.headD_eq_head?_getD,
    List.head?_drop]

@[simp]
theorem isSpent_indexed (c : Cursor) : c.indexed.isSpent = c.isSpent := by
  obtain ⟨before, lexeme, rest, line, tokens⟩ := c
  cases rest <;> simp [Indexed.isSpent, isSpent, indexed_eq]

theorem slice_indexed (c : Cursor) {m n : Nat} (h : n ≤ c.lexeme.length) :
    c.indexed.slice (c.start + m) (c.start + n) = (c.lexeme.reverse.take n).drop m := by
  have hstart : c.start = c.before.reverse.length := by rw [List.length_reverse, start]
  rw [Indexed.slice, indexed_eq, hstart, List.append_assoc, List.take_length_add_append,
    List.drop_length_add_append, List.take_append_of_le_length (by simpa using h)]

@[simp]
theorem lexeme_indexed (c : Cursor) : c.indexed.lexeme = c.lexeme.reverse := by
  have h := c.slice_indexed (m := 0) (Nat.le_refl c.lexeme.length)
  rwa [List.drop_zero, List.take_of_length_le (by simp)] at h

/-- The lexeme without its first and its last character. -/
theorem slice_indexed_inner {c : Cursor} (h : c.lexeme ≠ []) :
    c.indexed.slice (c.indexed.start + 1) (c.indexed.current - 1) =
      (c.lexeme.reverse.drop 1).dropLast := by
  have hpos : 0 < c.lexeme.length := List.length_pos_iff.mpr h
  have hcurrent : c.indexed.current - 1 = c.start + (c.lexeme.length - 1) :=
    Nat.add_sub_assoc hpos _
  have hslice := c.slice_indexed (m := 1) (Nat.sub_le c.lexeme.length 1)
  rw [← hcurrent] at hslice
  refine hslice.trans ?_
  rw [List.drop_take, List.dropLast_eq_take, List.length_drop, List.length_reverse]

theorem indexed_mark (c : Cursor) :
    c.mark.indexed = { c.indexed with start := c.indexed.current } := by
  simp [indexed_eq, mark, Nat.add_comm]

theorem indexed_emit (c : Cursor) (kind : Token.Kind) (literal : Value) :
    (c.emit kind literal).indexed = { c.indexed with tokens :=
      c.indexed.tokens ++ [⟨kind, String.ofList c.indexed.lexeme, literal, c.line⟩] } := by
  rw [lexeme_indexed]
  simp [indexed_eq, emit, lexemeText]

theorem indexed_addLines (c : Cursor) (n : Nat) :
    (c.addLines n).indexed = { c.indexed with line := c.indexed.line + n } :=
  rfl

/-- Up to the end of the text a move goes as far as it is to go. -/
theorem indexed_move {n : Nat} (h : n ≤ c.rest.length) :
    (c.move n).indexed = { c.indexed with current := c.indexed.current + n } := by
  simp [indexed_eq, move]
  omega

end Cursor

/-! ### Parts of a step -/

theorem follows_fail (c : Cursor) (fault : Diagnostic.LexicalFault) (line : Nat)
    (lexeme : String) :
    Follows c (Reader.fail fault line lexeme : Reader α) (Lexer.fail fault line lexeme) :=
  rfl

theorem follows_emit (c : Cursor) (kind : Token.Kind) (literal : Value) :
    Follows c (Reader.emit kind literal) (Lexer.emit kind literal) :=
  follows_modify (c.indexed_emit kind literal)

theorem follows_mark (c : Cursor) : Follows c Reader.mark (modify Cursor.mark) :=
  follows_modify c.indexed_mark

theorem follows_skip {n : Nat} (h : n ≤ c.rest.length) :
    Follows c (Reader.skip n) (set (c.move n)) :=
  follows_set (Cursor.indexed_move h)

theorem follows_take (c : Cursor) : Follows c Reader.take Lexer.take := by
  refine follows_of_get ?_
  rw [Cursor.getElem?_current]
  cases hrest : c.rest with
  | nil => exact follows_throw c _
  | cons x xs =>
    have hlength : 1 ≤ c.rest.length := by simp [hrest]
    exact (follows_skip hlength).bind fun _ c' _ ↦ follows_pure c' x

theorem follows_pass {x : Char} {xs : List Char} (h : c.rest = x :: xs) :
    Follows c Reader.pass (set (c.move 1)) := by
  have hpass : Follows c Reader.pass (do let _ ← Lexer.take; return ()) :=
    (follows_take c).bind fun _ c' _ ↦ follows_pure c' ()
  refine hpass.of_run_eq ?_
  rw [EStateM.run_bind, Lexer.run_take h]
  rfl

theorem follows_newLine (c : Cursor) : Follows c Reader.newLine (modify (Cursor.addLines 1)) :=
  follows_modify (c.indexed_addLines 1)

theorem follows_accept (c : Cursor) (expected : Char) :
    Follows c (Reader.accept expected) (Lexer.accept expected) := by
  have hread : Follows c (Reader.accept expected) (do
      if (← get).rest.head? = some expected then
        set (c.move 1)
        return true
      else
        return false) := by
    refine follows_of_get ?_
    rw [Cursor.getElem?_current]
    split
    · next h =>
      obtain ⟨xs, hrest⟩ := List.head?_eq_some_iff.mp h
      have hlength : 1 ≤ c.rest.length := by simp [hrest]
      exact (follows_skip hlength).bind fun _ c' _ ↦ follows_pure c' true
    · exact follows_pure c false
  refine hread.of_run_eq ?_
  by_cases h : c.rest.head? = some expected
  · simp only [Lexer.run_accept_of_head? h, EStateM.run_bind, EStateM.run_get, h, if_true]
    rfl
  · simp [Lexer.run_accept_of_ne h, h]

/-! ### Loops -/

section

open Indexed.Reader (loop loopWithin)

variable {condition : Indexed → Bool} {turn : Reader Unit}

/-- A loop does as `p` does if it does so within any number of turns that is large enough. -/
theorem follows_loop_iff {p : Lexer Unit} : Follows c (loop condition turn) p ↔
    ∀ᶠ turns in atTop, Follows c (loopWithin condition turn turns) p :=
  ending_eq_some_iff

theorem follows_loop_stop (h : condition c.indexed = false) :
    Follows c (loop condition turn) (pure ()) := by
  refine follows_loop_iff.mpr (eventually_of_succ (.of_forall fun turns ↦ follows_of_look ?_))
  rw [h]
  exact follows_pure c ()

theorem follows_loop_turn {p q : Lexer Unit} (h : condition c.indexed = true)
    (hturn : Follows c turn q)
    (hrest : ∀ c', q.run c = .ok () c' → Follows c' (loop condition turn) p) :
    Follows c (loop condition turn) (q >>= fun _ ↦ p) := by
  have hbehind : ∀ᶠ turns in atTop,
      ∀ c', q.run c = .ok () c' → Follows c' (loopWithin condition turn turns) p := by
    cases hq : q.run c with
    | error f c' =>
      refine .of_forall fun turns c'' hc'' ↦ ?_
      cases hc''
    | ok _ c' =>
      filter_upwards [follows_loop_iff.mp (hrest c' hq)] with turns hturns
      rintro c'' ⟨⟩
      exact hturns
  refine follows_loop_iff.mpr (eventually_of_succ ?_)
  filter_upwards [hbehind] with turns hturns
  refine follows_of_look ?_
  rw [h]
  exact hturn.bind fun _ c' hc' ↦ hturns c' hc'

/-- A loop does as `p` does if it stops where `p` has nothing to do, and each turn is the beginning
of `p` and passes a character. -/
theorem follows_loop {p : Lexer Unit}
    (hstop : ∀ c : Cursor, condition c.indexed = false → p.run c = .ok () c)
    (hgo : ∀ c : Cursor, condition c.indexed = true → ∃ q, Follows c turn q ∧
      p.run c = (q >>= fun _ ↦ p).run c ∧
      ∀ c', q.run c = .ok () c' → c'.rest.length < c.rest.length) (c : Cursor) :
    Follows c (loop condition turn) p := by
  -- A turn leaves a shorter rest, so the induction is on its length.
  induction hlength : c.rest.length using Nat.strongRecOn generalizing c with
  | ind n ih =>
    cases hcondition : condition c.indexed with
    | false => exact (follows_loop_stop hcondition).of_run_eq (hstop c hcondition)
    | true =>
      obtain ⟨q, hturn, hrun, hless⟩ := hgo c hcondition
      refine (follows_loop_turn hcondition hturn fun c' hc' ↦ ?_).of_run_eq hrun
      exact ih _ (hlength ▸ hless c' hc') c' rfl

end

/-! ### Runs of characters -/

namespace Cursor

theorem move_add (c : Cursor) (m n : Nat) : c.move (m + n) = (c.move m).move n := by
  simp [move, List.take_add]

theorem moveWhile_cons {p : Char → Bool} {x : Char} {xs : List Char} (h : c.rest = x :: xs)
    (hx : p x = true) : c.moveWhile p = (c.move 1).moveWhile p := by
  have hrest : (c.move 1).rest = xs := by simp [move, h]
  rw [moveWhile, moveWhile, hrest, h, List.takeWhile_cons_of_pos hx, List.length_cons,
    Nat.add_comm, move_add]

theorem moveWhile_of_not {p : Char → Bool} (h : c.rest.head?.any p = false) :
    c.moveWhile p = c := by
  obtain ⟨before, lexeme, rest, line, tokens⟩ := c
  cases rest with
  | nil => rfl
  | cons x xs =>
    have hx : p x = false := h
    simp [moveWhile, hx, move]

/-- Moves over `text`, which is in front, and counts its line ends. -/
def moveOver (text : List Char) (c : Cursor) : Cursor :=
  (c.move text.length).addLines (text.count '\n')

theorem moveOver_cons {x : Char} {xs : List Char} (h : c.rest = x :: xs) (text : List Char) :
    c.moveOver (x :: text) = (c.moveOver [x]).moveOver text := by
  simp [moveOver, move, addLines, h, List.count_cons]
  omega

theorem rest_moveOver {text rest : List Char} (h : c.rest = text ++ rest) :
    (c.moveOver text).rest = rest := by
  simp [moveOver, move, addLines, h]

theorem moveOver_singleton {x : Char} (hx : x ≠ '\n') : c.moveOver [x] = c.move 1 := by
  have hcount : [x].count '\n' = 0 := List.count_eq_zero.mpr (by simpa using Ne.symm hx)
  rw [moveOver, hcount]
  rfl

end Cursor

open Cursor (moveOver_cons moveOver_singleton rest_moveOver)

/-- A loop that takes characters with a property moves over all that are in front. -/
theorem follows_moveWhile {condition : Indexed → Bool} {p : Char → Bool}
    (h : ∀ c : Cursor, condition c.indexed = c.rest.head?.any p) (c : Cursor) :
    Follows c (Reader.loop condition Reader.pass) (modify (Cursor.moveWhile p)) := by
  refine follows_loop (fun c hc ↦ ?_) (fun c hc ↦ ?_) c
  · rw [EStateM.run_modify, Cursor.moveWhile_of_not ((h c).symm.trans hc)]
  · rw [h] at hc
    cases hrest : c.rest with
    | nil => simp [hrest] at hc
    | cons x xs =>
      have hx : p x = true := by simpa [hrest] using hc
      refine ⟨_, follows_pass hrest, ?_, fun c' hc' ↦ ?_⟩
      · rw [EStateM.run_modify, Cursor.moveWhile_cons hrest hx]
        rfl
      · obtain rfl : c.move 1 = c' := (EStateM.Result.ok.inj hc').2
        simp [Cursor.move, hrest]

theorem follows_takeWhile {p : Char → Bool} (hp : p '\x00' = false) (c : Cursor) :
    Follows c (Reader.takeWhile p) (modify (Cursor.moveWhile p)) := by
  refine follows_moveWhile (fun c ↦ ?_) c
  rw [Cursor.next_indexed, Cursor.next]
  cases c.rest <;> simp [hp]

theorem follows_skipLine (c : Cursor) : Follows c Reader.skipLine Lexer.skipLine := by
  refine follows_moveWhile (fun c ↦ ?_) c
  rw [Cursor.next_indexed, Cursor.isSpent_indexed, Cursor.next, Cursor.isSpent]
  cases c.rest <;> simp

/-! ### Strings -/

theorem follows_passInString {x : Char} {xs : List Char} (h : c.rest = x :: xs) :
    Follows c Reader.passInString (set (c.moveOver [x])) := by
  refine follows_of_look ?_
  rw [Cursor.next_indexed, Cursor.next, h, List.headD_cons]
  by_cases hx : x = '\n'
  · have hturn : Follows c (Reader.newLine >>= fun _ ↦ Reader.pass)
        (modify (Cursor.addLines 1) >>= fun _ ↦ set ((c.addLines 1).move 1)) := by
      refine (follows_newLine c).bind fun _ c' hc' ↦ ?_
      obtain rfl : c.addLines 1 = c' := (EStateM.Result.ok.inj hc').2
      exact follows_pass h
    rw [if_pos hx, hx]
    exact hturn.of_run_eq rfl
  · rw [if_neg hx]
    exact (follows_pass h).of_run_eq (by rw [moveOver_singleton hx])

/-- The loop of a string takes all up to the closing mark. -/
theorem follows_stringLoop (c : Cursor) :
    Follows c (Reader.loop (fun i ↦ i.next != '"' && !i.isSpent) Reader.passInString)
      (modify fun c ↦ c.moveOver (c.rest.takeWhile (· != '"'))) := by
  have hcondition (c : Cursor) : (c.indexed.next != '"' && !c.indexed.isSpent) =
      c.rest.head?.any (· != '"') := by
    rw [Cursor.next_indexed, Cursor.isSpent_indexed, Cursor.next, Cursor.isSpent]
    cases c.rest <;> simp
  refine follows_loop (fun c hc ↦ ?_) (fun c hc ↦ ?_) c
  · rw [hcondition] at hc
    have hnone : c.rest.takeWhile (· != '"') = [] := by
      cases hrest : c.rest with
      | nil => rfl
      | cons x xs =>
        rw [hrest] at hc
        exact List.takeWhile_cons_of_neg (ne_true_of_eq_false hc)
    rw [EStateM.run_modify, hnone]
    rfl
  · rw [hcondition] at hc
    cases hrest : c.rest with
    | nil => simp [hrest] at hc
    | cons x xs =>
      have hx : (x != '"') = true := by simpa [hrest] using hc
      have hrun : (x :: xs).takeWhile (· != '"') = x :: xs.takeWhile (· != '"') :=
        List.takeWhile_cons_of_pos hx
      have hpassed : (c.moveOver [x]).rest = xs := rest_moveOver hrest
      refine ⟨_, follows_passInString hrest, ?_, fun c' hc' ↦ ?_⟩
      · rw [EStateM.run_modify, hrest, hrun, moveOver_cons hrest]
        show _ = EStateM.Result.ok () ((c.moveOver [x]).moveOver _)
        rw [hpassed]
      · obtain rfl : c.moveOver [x] = c' := (EStateM.Result.ok.inj hc').2
        rw [hpassed]
        exact Nat.lt_succ_self _

theorem follows_quotedText (c : Cursor) : Follows c Reader.quotedText Lexer.quotedText := by
  have hread : Follows c Reader.quotedText (do
      modify fun c ↦ c.moveOver (c.rest.takeWhile (· != '"'))
      let c ← get
      if c.isSpent then
        Lexer.fail .unterminatedString c.line ""
      else
        set (c.move 1)
        let c ← get
        Lexer.emit .string (.string (String.ofList (c.lexeme.reverse.drop 1).dropLast))) := by
    refine (follows_stringLoop c).bind fun _ c' _ ↦ follows_of_get ?_
    rw [Cursor.isSpent_indexed]
    split
    · exact follows_fail c' _ _ _
    · next hspent =>
      obtain ⟨x, xs, hrest⟩ := List.exists_cons_of_ne_nil (l := c'.rest)
        (by simpa [Cursor.isSpent] using hspent)
      refine (follows_pass hrest).bind fun _ c'' hc'' ↦ follows_of_get ?_
      obtain rfl : c'.move 1 = c'' := (EStateM.Result.ok.inj hc'').2
      rw [Cursor.slice_indexed_inner (by simp [Cursor.move, hrest])]
      exact follows_emit _ _ _
  exact hread.of_run_eq rfl

/-! ### Comments -/

/-- The rest of a comment up to its closing mark. -/
def passComment (line : Nat) : Lexer Unit := do
  let c ← get
  match Lexer.commentBody? c.rest with
  | some body => set (c.moveOver body)
  | none =>
    set (c.moveOver c.rest)
    Lexer.fail .unterminatedComment line ""

theorem run_passComment_of_some {body : List Char} (h : Lexer.commentBody? c.rest = some body)
    (line : Nat) : (passComment line).run c = .ok () (c.moveOver body) := by
  rw [passComment, EStateM.run_bind, EStateM.run_get]
  simp only [h, EStateM.run_set]

theorem run_passComment_of_none (h : Lexer.commentBody? c.rest = none) (line : Nat) :
    (passComment line).run c = .error
      (.diagnostic (.atText (.lexical .unterminatedComment) line "")) (c.moveOver c.rest) := by
  rw [passComment, EStateM.run_bind, EStateM.run_get]
  simp only [h]
  rfl

theorem follows_passInComment {x : Char} {xs : List Char} (h : c.rest = x :: xs)
    (line : Nat) : Follows c (Reader.passInComment line) (set (c.moveOver [x])) := by
  have hspent : c.isSpent = false := by simp [Cursor.isSpent, h]
  have hturn : Follows c (do if (← Reader.take) = '\n' then Reader.newLine)
      (do if (← Lexer.take) = '\n' then modify (Cursor.addLines 1)) := by
    refine (follows_take c).bind fun y c' _ ↦ ?_
    split
    · exact follows_newLine c'
    · exact follows_pure c' ()
  refine follows_of_look ?_
  rw [Cursor.isSpent_indexed, hspent]
  refine hturn.of_run_eq ?_
  rw [EStateM.run_bind, Lexer.run_take h]
  show EStateM.Result.ok () (c.moveOver [x]) =
    (if x = '\n' then modify (Cursor.addLines 1) else pure () : Lexer Unit).run (c.move 1)
  by_cases hx : x = '\n'
  · rw [if_pos hx, hx]
    rfl
  · rw [if_neg hx, moveOver_singleton hx]
    rfl

theorem closes_iff (c : Cursor) :
    (c.indexed.next == '*' && c.indexed.afterNext == '/') = true ↔ ['*', '/'] <+: c.rest := by
  rw [Cursor.next_indexed, Cursor.afterNext_indexed, Cursor.next, Cursor.afterNext]
  rcases c.rest with _ | ⟨x, _ | ⟨y, ys⟩⟩
  · simp
  · simp
  · simp only [List.headD_cons, List.drop_succ_cons, List.drop_zero, Bool.and_eq_true, beq_iff_eq,
      List.cons_prefix_cons, List.nil_prefix, and_true]
    exact and_congr eq_comm eq_comm

/-- The loop of a comment takes all up to the closing mark. Where there is none, it fails at the end
of the text. -/
theorem follows_commentLoop (line : Nat) (c : Cursor) :
    Follows c (Reader.loop (fun i ↦ !(i.next == '*' && i.afterNext == '/'))
      (Reader.passInComment line)) (passComment line) := by
  refine follows_loop (fun c hc ↦ ?_) (fun c hc ↦ ?_) c
  · rw [Bool.not_eq_false', closes_iff] at hc
    obtain ⟨rest, hrest⟩ := hc
    have hbody : Lexer.commentBody? c.rest = some [] := by
      rw [← hrest]
      rfl
    rw [run_passComment_of_some hbody]
    rfl
  · rw [Bool.not_eq_true', ← Bool.not_eq_true, closes_iff] at hc
    cases hrest : c.rest with
    | nil =>
      have hspent : c.isSpent = true := by simp [Cursor.isSpent, hrest]
      refine ⟨Lexer.fail .unterminatedComment line "", ?_, ?_, fun c' hc' ↦ by cases hc'⟩
      · refine follows_of_look ?_
        rw [Cursor.isSpent_indexed, hspent]
        exact follows_fail c _ _ _
      · rw [run_passComment_of_none (by rw [hrest]; rfl), hrest]
        rfl
    | cons x xs =>
      have hpassed : (c.moveOver [x]).rest = xs := rest_moveOver hrest
      rw [hrest] at hc
      have hbody := Lexer.commentBody?_cons hc
      refine ⟨_, follows_passInComment hrest line, ?_, fun c' hc' ↦ ?_⟩
      · show _ = (passComment line).run (c.moveOver [x])
        cases hxs : Lexer.commentBody? xs with
        | none =>
          rw [run_passComment_of_none (by rw [hrest, hbody, hxs]; rfl),
            run_passComment_of_none (by rw [hpassed, hxs]), hpassed, hrest, moveOver_cons hrest]
        | some body =>
          rw [run_passComment_of_some (by rw [hrest, hbody, hxs]; rfl),
            run_passComment_of_some (by rw [hpassed, hxs]), moveOver_cons hrest]
      · obtain rfl : c.moveOver [x] = c' := (EStateM.Result.ok.inj hc').2
        rw [hpassed]
        exact Nat.lt_succ_self _

/-- The two characters that are skipped at the end of a comment are those of its closing mark. -/
theorem follows_skipBlock (c : Cursor) : Follows c Reader.skipBlock Lexer.skipBlock := by
  have hread : Follows c Reader.skipBlock (do
      passComment c.line
      modify (Cursor.move 2)) := by
    refine follows_of_look ((follows_commentLoop c.line c).bind fun _ c' hc' ↦ ?_)
    cases hbody : Lexer.commentBody? c.rest with
    | none =>
      rw [run_passComment_of_none hbody] at hc'
      cases hc'
    | some body =>
      obtain ⟨rest, hrest⟩ := Lexer.eq_of_commentBody? hbody
      rw [run_passComment_of_some hbody] at hc'
      obtain rfl : c.moveOver body = c' := (EStateM.Result.ok.inj hc').2
      have hclosing : (c.moveOver body).rest = '*' :: '/' :: rest := rest_moveOver hrest
      exact follows_modify (Cursor.indexed_move (by simp [hclosing]))
  refine hread.of_run_eq ?_
  cases hbody : Lexer.commentBody? c.rest with
  | none =>
    rw [EStateM.run_bind, run_passComment_of_none hbody]
    simp [Lexer.skipBlock, hbody, Lexer.fail, Cursor.moveOver]
  | some body =>
    rw [EStateM.run_bind, run_passComment_of_some hbody]
    simp only [Lexer.skipBlock, EStateM.run_bind, EStateM.run_get, hbody, Cursor.move_add]
    rfl

/-! ### Numbers, words and steps -/

theorem follows_word (c : Cursor) : Follows c Reader.word Lexer.word := by
  refine (follows_takeWhile (by decide) c).bind fun _ c' _ ↦ follows_of_get ?_
  rw [Cursor.lexeme_indexed]
  exact follows_emit c' _ _

theorem follows_literal (c : Cursor) (read? : List Char → Option Value) :
    Follows c (do
      let i ← get
      match read? i.lexeme with
      | some literal => Reader.emit .number literal
      | none => Reader.fail .malformedNumber i.line (String.ofList i.lexeme)) (do
      let c ← get
      match read? c.lexeme.reverse with
      | some literal => Lexer.emit .number literal
      | none => Lexer.fail .malformedNumber c.line c.lexemeText) := by
  refine follows_of_get ?_
  rw [Cursor.lexeme_indexed]
  cases read? c.lexeme.reverse with
  | some literal => exact follows_emit c _ _
  | none => exact follows_fail c _ _ _

theorem follows_numeral (c : Cursor) : Follows c Reader.numeral Lexer.numeral := by
  unfold Reader.numeral Lexer.numeral
  refine (follows_takeWhile (by decide) c).bind fun _ c' _ ↦ follows_of_get ?_
  rw [Cursor.next_indexed, Cursor.afterNext_indexed]
  dsimp only
  cases hpoint : (decide (c'.next = '.') && isDigit c'.afterNext) with
  | false => exact follows_literal c' fun text ↦ (Decimal.readInteger? text).map Value.integer
  | true =>
    obtain ⟨x, xs, hrest⟩ : ∃ x xs, c'.rest = x :: xs := by
      refine List.exists_cons_of_ne_nil fun hnil ↦ ?_
      simp [Cursor.next, hnil] at hpoint
    have hpart := (follows_pass hrest).bind fun _ c₁ _ ↦
      (follows_takeWhile (p := isDigit) (by decide) c₁).bind fun _ c₂ _ ↦
        follows_literal c₂ fun text ↦ (Decimal.readFraction? text).map Value.float
    exact hpart.of_run_eq rfl

theorem follows_step (c : Cursor) : Follows c Reader.step Lexer.step := by
  refine (follows_take c).bind fun x c' _ ↦ ?_
  cases ofSingle? x with
  | some kind => exact follows_emit c' kind _
  | none =>
    cases ofDouble? x with
    | some kinds =>
      refine (follows_accept c' '=').bind fun joined c'' _ ↦ ?_
      exact follows_emit c'' _ _
    | none =>
      dsimp only
      split_ifs with hslash hblank hline hquote hdigit halpha
      · refine (follows_accept c' '/').bind fun isLine c'' _ ↦ ?_
        cases isLine with
        | true => exact follows_skipLine c''
        | false =>
          refine (follows_accept c'' '*').bind fun isBlock c₁ _ ↦ ?_
          cases isBlock with
          | true => exact follows_skipBlock c₁
          | false => exact follows_emit c₁ _ _
      · exact follows_pure c' ()
      · exact follows_newLine c'
      · exact follows_quotedText c'
      · exact follows_numeral c'
      · exact follows_word c'
      · exact follows_of_get (follows_fail c' _ _ _)

theorem follows_steps {n : Nat} (c : Cursor) (h : c.rest.length ≤ n) :
    Follows c (Reader.loop (fun i ↦ !i.isSpent) (do
      Reader.mark
      Reader.step)) (Lexer.stepsWithin n) := by
  induction n generalizing c with
  | zero =>
    have hspent : c.isSpent = true := by
      simpa [Cursor.isSpent] using h
    exact follows_loop_stop (by simp [hspent])
  | succ n ih =>
    cases hspent : c.isSpent with
    | true =>
      have hstop : (Lexer.stepsWithin (n + 1)).run c = .ok () c := by
        simp [Lexer.stepsWithin, hspent]
      exact (follows_loop_stop (by simp [hspent])).of_run_eq hstop
    | false =>
      have hrest : c.rest ≠ [] := by simpa [Cursor.isSpent] using hspent
      have hturn : Follows c (do
          Reader.mark
          Reader.step) (do
          modify Cursor.mark
          Lexer.step) :=
        (follows_mark c).bind fun _ c' _ ↦ follows_step c'
      have hrun : (Lexer.stepsWithin (n + 1)).run c = (do
          modify Cursor.mark
          Lexer.step
          Lexer.stepsWithin n : Lexer Unit).run c := by
        simp [Lexer.stepsWithin, hspent]
      refine (follows_loop_turn (by simp [hspent]) hturn fun c' hc' ↦ ih c' ?_).of_run_eq ?_
      · have hless : c'.rest.length + 1 ≤ c.rest.length :=
          (Lexer.proceeds_step (c := c.mark) hrest).length_rest hc'
        omega
      · rw [hrun]
        simp only [EStateM.run_bind]
        rfl

theorem follows_tokens (c : Cursor) : Follows c Reader.tokens Lexer.tokens := by
  have hread : Follows c Reader.tokens (do
      Lexer.stepsWithin c.rest.length
      modify fun c ↦ { c with tokens := ⟨.endOfText, "", .nil, c.line⟩ :: c.tokens }
      return (← get).tokens.reverse) := by
    refine (follows_steps c (Nat.le_refl _)).bind fun _ c' _ ↦ ?_
    refine (follows_modify ?_).bind fun _ c'' _ ↦ ?_
    · simp [Cursor.indexed_eq]
    · exact follows_of_get (follows_pure _ _)
  exact hread.of_run_eq rfl

end LoxLang.Source
