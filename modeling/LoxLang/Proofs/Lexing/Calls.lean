import LoxLang.Proofs.Lexing.Indexed

/-!
The lexer in any order of calls.

The parts of the lexer are made for certain places in a text, as that for the rest of a string is
for the place behind a quotation mark. They may be called anywhere, though, and in any order, also
after one of them failed. Read by numbers, every call ends (`follows_call`), and the numbers stay
within the text (`Indexed.Within`). A call goes on from where it begins or stays there, and it fails
in two ways only (`Call.Lawful`).
-/

set_option autoImplicit false
set_option relaxedAutoImplicit false

namespace LoxLang.Source

open Lexer (Proceeds)
open Indexed (Reader)

/-! ### Calls -/

/-- What can be asked of a lexer. -/
inductive Call
  | mark
  | take
  | accept (expected : Char)
  | next
  | afterNext
  | isSpent
  | skipLine
  | skipBlock
  | quotedText
  | numeral
  | word
  | step
  | tokens
  deriving DecidableEq, Repr

inductive Answer
  | done
  | character (c : Char)
  | verdict (holds : Bool)
  | row (tokens : List Token)
  deriving DecidableEq, Repr

/-- Runs `x` and answers with its result. -/
def ask {α : Type} {m : Type → Type} [Monad m] (x : m α) (answer : α → Answer) : m Answer := do
  return answer (← x)

namespace Call

/-- The call takes the next character, whatever it is. -/
def Takes (call : Call) : Prop :=
  call = .take ∨ call = .step

def run : Call → Lexer Answer
  | mark => ask (modify Cursor.mark) fun _ ↦ .done
  | take => ask Lexer.take .character
  | accept expected => ask (Lexer.accept expected) .verdict
  | next => ask get fun c ↦ .character c.next
  | afterNext => ask get fun c ↦ .character c.afterNext
  | isSpent => ask get fun c ↦ .verdict c.isSpent
  | skipLine => ask Lexer.skipLine fun _ ↦ .done
  | skipBlock => ask Lexer.skipBlock fun _ ↦ .done
  | quotedText => ask Lexer.quotedText fun _ ↦ .done
  | numeral => ask Lexer.numeral fun _ ↦ .done
  | word => ask Lexer.word fun _ ↦ .done
  | step => ask Lexer.step fun _ ↦ .done
  | tokens => ask Lexer.tokens .row

/-- The same call of a lexer by numbers. -/
noncomputable def read : Call → Reader Answer
  | mark => ask Reader.mark fun _ ↦ .done
  | take => ask Reader.take .character
  | accept expected => ask (Reader.accept expected) .verdict
  | next => ask get fun i ↦ .character i.next
  | afterNext => ask get fun i ↦ .character i.afterNext
  | isSpent => ask get fun i ↦ .verdict i.isSpent
  | skipLine => ask Reader.skipLine fun _ ↦ .done
  | skipBlock => ask Reader.skipBlock fun _ ↦ .done
  | quotedText => ask Reader.quotedText fun _ ↦ .done
  | numeral => ask Reader.numeral fun _ ↦ .done
  | word => ask Reader.word fun _ ↦ .done
  | step => ask Reader.step fun _ ↦ .done
  | tokens => ask Reader.tokens .row

/-- The cursor after a call, whether that failed or not. -/
def after (c : Cursor) (call : Call) : Cursor :=
  call.run.after c

end Call

/-- The cursor after calls in turn. -/
def afterCalls (c : Cursor) (calls : List Call) : Cursor :=
  calls.foldl Call.after c

/-- The numbers after calls in turn, if all of them end. -/
noncomputable def Indexed.afterCalls (i : Indexed) (calls : List Call) : Option Indexed :=
  calls.foldlM (fun i call ↦ (call.read i).map Prod.snd) i

section

variable {α : Type} {c : Cursor} {k n : Nat}

/-! ### Calls end -/

theorem Follows.ask {x : Reader α} {p : Lexer α} (h : Follows c x p) (answer : α → Answer) :
    Follows c (ask x answer) (ask p answer) :=
  h.bind fun _ c' _ ↦ follows_pure c' _

theorem follows_look {f : Indexed → Answer} {g : Cursor → Answer} (h : f c.indexed = g c) :
    Follows c (ask get f) (ask get g) :=
  follows_of_get (h ▸ follows_pure c _)

theorem follows_call (call : Call) (c : Cursor) : Follows c call.read call.run := by
  cases call with
  | mark => exact (follows_mark c).ask _
  | take => exact (follows_take c).ask _
  | accept expected => exact (follows_accept c expected).ask _
  | next => exact follows_look (congrArg _ c.next_indexed)
  | afterNext => exact follows_look (congrArg _ c.afterNext_indexed)
  | isSpent => exact follows_look (congrArg _ c.isSpent_indexed)
  | skipLine => exact (follows_skipLine c).ask _
  | skipBlock => exact (follows_skipBlock c).ask _
  | quotedText => exact (follows_quotedText c).ask _
  | numeral => exact (follows_numeral c).ask _
  | word => exact (follows_word c).ask _
  | step => exact (follows_step c).ask _
  | tokens => exact (follows_tokens c).ask _

theorem snd_outcome (p : Lexer α) (c : Cursor) : (p.outcome c).2 = (p.after c).indexed := by
  rw [Lexer.outcome, Lexer.after]
  cases p.run c <;> rfl

/-- The lexer by numbers ends after each of the calls, at the numbers of the cursor. -/
theorem afterCalls_indexed (c : Cursor) (calls : List Call) :
    c.indexed.afterCalls calls = some (afterCalls c calls).indexed := by
  induction calls generalizing c with
  | nil => rfl
  | cons call calls ih =>
    have hend : (call.read c.indexed).map Prod.snd = some (call.after c).indexed := by
      rw [follows_call call c, Option.map_some, snd_outcome, Call.after]
    rw [Indexed.afterCalls, List.foldlM_cons, hend]
    exact ih (call.after c)

/-! ### Calls go on -/

theorem proceeds_ask {p : Lexer α} (h : Proceeds c p k n) (answer : α → Answer) :
    Proceeds c (ask p answer) k (0 + n) :=
  h.bind fun _ c' _ ↦ Lexer.proceeds_pure c' _

theorem rest_eq_nil_iff (c : Cursor) : c.rest = [] ↔ c.position = c.source.length := by
  rw [← List.length_eq_zero_iff, c.length_source]
  omega

/-- Where no character is left, a call that takes one fails and changes nothing. -/
theorem run_of_exhausted {call : Call} (hcall : call.Takes) (h : c.rest = []) :
    call.run.run c = .error (.mishap .textExhausted) c := by
  have htake : Lexer.take.run c = .error (.mishap .textExhausted) c := by
    simp only [Lexer.take, EStateM.run_bind, EStateM.run_get, h]
    rfl
  rcases hcall with rfl | rfl
  · rw [Call.run, ask, EStateM.run_bind, htake]
  · rw [Call.run, ask, EStateM.run_bind, Lexer.step, EStateM.run_bind, htake]

theorem proceeds_call_step (h : c.rest ≠ []) : Proceeds c Call.step.run 1 1 :=
  proceeds_ask (Lexer.proceeds_step h) _

/-- All other calls go on. -/
theorem proceeds_call {call : Call} (h : ¬ (call.Takes ∧ c.rest = [])) :
    ∃ n, Proceeds c call.run 0 n := by
  cases call with
  | mark => exact ⟨_, proceeds_ask (Lexer.proceeds_mark c) _⟩
  | take =>
    obtain ⟨x, xs, hrest⟩ := List.exists_cons_of_ne_nil fun hnil ↦ h ⟨.inl rfl, hnil⟩
    exact ⟨_, (proceeds_ask (Lexer.proceeds_take hrest) _).mono (Nat.le_refl _)⟩
  | accept expected => exact ⟨_, proceeds_ask (Lexer.proceeds_accept c expected) _⟩
  | next | afterNext | isSpent => exact ⟨0, Lexer.proceeds_of_get (Lexer.proceeds_pure c _)⟩
  | skipLine => exact ⟨_, proceeds_ask (Lexer.proceeds_moveWhile c _) _⟩
  | skipBlock => exact ⟨_, proceeds_ask (Lexer.proceeds_skipBlock c) _⟩
  | quotedText => exact ⟨_, proceeds_ask (Lexer.proceeds_quotedText c) _⟩
  | numeral => exact ⟨_, proceeds_ask (Lexer.proceeds_numeral c) _⟩
  | word => exact ⟨_, proceeds_ask (Lexer.proceeds_word c) _⟩
  | step =>
    have hrest : c.rest ≠ [] := fun hnil ↦ h ⟨.inr rfl, hnil⟩
    exact ⟨_, (proceeds_call_step hrest).mono (Nat.le_refl _)⟩
  | tokens => exact ⟨_, proceeds_ask (Lexer.proceeds_tokens c) _⟩

theorem passes_call (call : Call) (c : Cursor) :
    ∃ passed found, c.Passes (call.after c) passed found := by
  by_cases h : call.Takes ∧ c.rest = []
  · refine ⟨[], [], ?_⟩
    rw [Call.after, Lexer.after, run_of_exhausted h.1 h.2]
    exact c.passes_refl
  · obtain ⟨n, passed, found, hpasses, -⟩ := proceeds_call h
    exact ⟨passed, found, hpasses⟩

end

/-! ### Any calls -/

/-- The numbers are those of places in the text, and the line is at most the one that the text up to
the next character leads to. -/
structure Indexed.Within (i : Indexed) (text : List Char) : Prop where
  text_eq : i.text = text
  start_le : i.start ≤ i.current
  current_le : i.current ≤ text.length
  one_le_line : 1 ≤ i.line
  line_le : i.line - 1 ≤ Piece.newlines (text.take i.current)

/-- What a call does at a cursor. -/
structure Call.Lawful (call : Call) (c : Cursor) : Prop where
  /-- Read by numbers, the call ends as it does over cursors. -/
  ends : call.read c.indexed = some (call.run.outcome c)
  position_le : c.position ≤ (call.after c).position
  line_le : c.line ≤ (call.after c).line
  tokens : ∃ found, (call.after c).tokens = found ++ c.tokens
  /-- The end of the text is reported where a call is to take a character and there is none. Nothing
  is changed then. -/
  exhausted : ∀ c', call.run.run c = .error (.mishap .textExhausted) c' ↔
    call.Takes ∧ c.position = c.source.length ∧ c' = c
  /-- There is no other failure than this and diagnostics of the text. -/
  failure : ∀ f c', call.run.run c = .error f c' → f = .mishap .textExhausted ∨ f.IsLexical
  step : call = .step → c.position < c.source.length → c.position < (call.after c).position ∧
    ∃ found, found.length ≤ 1 ∧ (call.after c).tokens = found ++ c.tokens

theorem take_position (c : Cursor) :
    c.source.take c.position = (c.lexeme ++ c.before).reverse := by
  rw [Cursor.source_eq, Cursor.position_eq, ← List.length_reverse, List.take_left]

theorem Cursor.Passes.within {c c' : Cursor} {passed text : List Char} {found : List Token}
    (h : c.Passes c' passed found) (hc : c.indexed.Within text) : c'.indexed.Within text where
  text_eq := h.source_eq.trans hc.text_eq
  start_le := Nat.le_add_right _ _
  current_le := by
    obtain rfl : c.source = text := hc.text_eq
    rw [← h.source_eq, Cursor.length_source]
    exact Nat.le_add_right _ _
  one_le_line := Nat.le_trans hc.one_le_line h.line_le
  line_le := by
    have hline : c.line - 1 ≤ Piece.newlines (text.take c.position) := hc.line_le
    have hadd := h.line_le_add
    obtain rfl : c.source = text := hc.text_eq
    show c'.line - 1 ≤ Piece.newlines (c.source.take c'.position)
    rw [take_position, Piece.newlines, List.count_reverse] at hline
    rw [← h.source_eq, take_position, h.read, Piece.newlines, List.count_reverse,
      List.count_append, List.count_reverse]
    rw [Piece.newlines] at hadd
    omega

theorem within_ofText (text : List Char) : (Cursor.ofText text).indexed.Within text where
  text_eq := rfl
  start_le := Nat.le_refl 0
  current_le := Nat.zero_le _
  one_le_line := Nat.le_refl 1
  line_le := Nat.zero_le _

theorem within_afterCalls {c : Cursor} {text : List Char} (h : c.indexed.Within text)
    (calls : List Call) : (afterCalls c calls).indexed.Within text := by
  induction calls generalizing c with
  | nil => exact h
  | cons call calls ih =>
    obtain ⟨passed, found, hpasses⟩ := passes_call call c
    exact ih (hpasses.within h)

theorem run_call_eq_error {call : Call} {c c' : Cursor} {f : Failure}
    (h : call.run.run c = .error f c') :
    (f = .mishap .textExhausted ∧ call.Takes ∧ c.rest = [] ∧ c' = c) ∨ f.IsLexical := by
  by_cases hcall : call.Takes ∧ c.rest = []
  · rw [run_of_exhausted hcall.1 hcall.2] at h
    cases h
    exact .inl ⟨rfl, hcall.1, hcall.2, rfl⟩
  · obtain ⟨n, passed, found, -, -, -, hlexical⟩ := proceeds_call hcall
    exact .inr (hlexical f c' h)

theorem lawful (call : Call) (c : Cursor) : call.Lawful c where
  ends := follows_call call c
  position_le := by
    obtain ⟨passed, found, hpasses⟩ := passes_call call c
    rw [hpasses.position_eq]
    exact Nat.le_add_right _ _
  line_le := by
    obtain ⟨passed, found, hpasses⟩ := passes_call call c
    exact hpasses.line_le
  tokens := by
    obtain ⟨passed, found, hpasses⟩ := passes_call call c
    exact ⟨found, hpasses.tokens⟩
  exhausted c' := by
    rw [← rest_eq_nil_iff]
    constructor
    · intro h
      rcases run_call_eq_error h with ⟨-, hcall⟩ | ⟨d, fault, hd, -⟩
      · exact hcall
      · cases hd
    · rintro ⟨hcall, hrest, rfl⟩
      exact run_of_exhausted hcall hrest
  failure f c' h := (run_call_eq_error h).imp_left And.left
  step := by
    rintro rfl hposition
    have hrest : c.rest ≠ [] := fun hnil ↦
      Nat.ne_of_lt hposition ((rest_eq_nil_iff c).mp hnil)
    obtain ⟨passed, found, hpasses, hpassed, hfound, -⟩ := proceeds_call_step hrest
    refine ⟨?_, found, hfound, hpasses.tokens⟩
    rw [Call.after, hpasses.position_eq]
    exact Nat.lt_add_of_pos_right hpassed

/-- Whatever is called in whatever order, and whether or not the calls fail: the lexer by numbers
ends after each of them, at the numbers of a cursor. These are within the text, and each further
call goes on from there, or stays and fails where it needs a character and none is left. -/
theorem lawful_calls (text : List Char) (calls : List Call) :
    (Cursor.ofText text).indexed.afterCalls calls =
        some (afterCalls (.ofText text) calls).indexed ∧
      (afterCalls (.ofText text) calls).indexed.Within text ∧
      ∀ call : Call, call.Lawful (afterCalls (.ofText text) calls) :=
  ⟨afterCalls_indexed _ calls, within_afterCalls (within_ofText text) calls,
    fun call ↦ lawful call _⟩

/-- The rest of a comment and then that of a string, called in front of a text with neither. -/
example : (afterCalls (.ofText ['a', '\n', '*', '/', '"', ';']) [.skipBlock, .quotedText, .step,
    .step]).indexed.current = 6 := by
  decide

end LoxLang.Source
