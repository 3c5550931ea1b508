import LoxLang.Proofs.Lexing.Steps

/-!
How far the lexer gets.

Every part of the lexer, begun at any cursor, goes on in the text: it passes characters of the rest,
counts at most the line ends among them, and adds tokens to those found before (`Cursor.Passes`).
This holds also where it fails, and then the text is at fault (`Lexer.Proceeds`). A step passes the
character that is next (`proceeds_step`).
-/

set_option autoImplicit false
set_option relaxedAutoImplicit false

namespace LoxLang

/-- The failure is a diagnostic of the lexer. -/
def Failure.IsLexical (f : Failure) : Prop :=
  ∃ d fault, f = .diagnostic d ∧ d.cause = .lexical fault

namespace Source

open Token.Kind

/-! ### Going on in a text -/

namespace Cursor

/-- `c'` is where reading `text` leads from `c`, with the tokens `found`, the last one first. Lines
are counted only where line ends were read. -/
structure Passes (c c' : Cursor) (text : List Char) (found : List Token) : Prop where
  read : c'.lexeme ++ c'.before = text.reverse ++ (c.lexeme ++ c.before)
  rest : c.rest = text ++ c'.rest
  line_le : c.line ≤ c'.line
  line_le_add : c'.line ≤ c.line + Piece.newlines text
  tokens : c'.tokens = found ++ c.tokens

theorem source_eq (c : Cursor) : c.source = (c.lexeme ++ c.before).reverse ++ c.rest := by
  rw [source, List.reverse_append]

theorem position_eq (c : Cursor) : c.position = (c.lexeme ++ c.before).length := by
  rw [position, List.length_append, Nat.add_comm]

theorem length_source (c : Cursor) : c.source.length = c.position + c.rest.length := by
  rw [source, List.length_append, List.length_append, List.length_reverse, List.length_reverse,
    position]

namespace Passes

variable {c c' c'' : Cursor} {us vs : List Char} {ts found : List Token}

theorem source_eq (h : c.Passes c' us found) : c'.source = c.source := by
  rw [Cursor.source_eq, Cursor.source_eq, h.read, h.rest]
  simp

theorem position_eq (h : c.Passes c' us found) : c'.position = c.position + us.length := by
  rw [Cursor.position_eq, Cursor.position_eq, h.read, List.length_append, List.length_reverse,
    Nat.add_comm]

theorem trans (h : c.Passes c' us ts) (h' : c'.Passes c'' vs found) :
    c.Passes c'' (us ++ vs) (found ++ ts) where
  read := by rw [h'.read, h.read, List.reverse_append, List.append_assoc]
  rest := by rw [h.rest, h'.rest, List.append_assoc]
  line_le := Nat.le_trans h.line_le h'.line_le
  line_le_add := by
    have hfirst := h.line_le_add
    have hsecond := h'.line_le_add
    simp only [Piece.newlines, List.count_append] at hfirst hsecond ⊢
    omega
  tokens := by rw [h'.tokens, h.tokens, List.append_assoc]

end Passes

theorem passes_refl (c : Cursor) : c.Passes c [] [] :=
  ⟨rfl, rfl, Nat.le_refl _, Nat.le_refl _, rfl⟩

theorem passes_mark (c : Cursor) : c.Passes c.mark [] [] :=
  ⟨rfl, rfl, Nat.le_refl _, Nat.le_refl _, rfl⟩

theorem passes_emit (kind : Token.Kind) (literal : Value) (c : Cursor) :
    c.Passes (c.emit kind literal) [] [⟨kind, c.lexemeText, literal, c.line⟩] :=
  ⟨rfl, rfl, Nat.le_refl _, Nat.le_refl _, rfl⟩

theorem passes_move_addLines {c : Cursor} {n lines : Nat}
    (h : lines ≤ Piece.newlines (c.rest.take n)) :
    c.Passes ((c.move n).addLines lines) (c.rest.take n) [] where
  read := List.append_assoc _ _ _
  rest := (List.take_append_drop n c.rest).symm
  line_le := Nat.le_add_right _ _
  line_le_add := Nat.add_le_add_left h _
  tokens := rfl

theorem passes_move (n : Nat) (c : Cursor) : c.Passes (c.move n) (c.rest.take n) [] :=
  passes_move_addLines (Nat.zero_le _)

end Cursor

namespace Lexer

variable {α β : Type} {c c' : Cursor} {k m n : Nat}

/-- The cursor that is left, also where the lexer fails. -/
def after (p : Lexer α) (c : Cursor) : Cursor :=
  match p.run c with
  | .ok _ c' | .error _ c' => c'

/-- From `c` the lexer passes at least `k` characters and finds at most `n` tokens. If it fails, the
text is at fault. -/
def Proceeds (c : Cursor) (p : Lexer α) (k n : Nat) : Prop :=
  ∃ text found, c.Passes (p.after c) text found ∧ k ≤ text.length ∧ found.length ≤ n ∧
    ∀ f c', p.run c = .error f c' → f.IsLexical

theorem proceeds_of_ok {p : Lexer α} {a : α} {text : List Char} {found : List Token}
    (hrun : p.run c = .ok a c') (h : c.Passes c' text found) (hk : k ≤ text.length)
    (hn : found.length ≤ n) : Proceeds c p k n := by
  refine ⟨text, found, ?_, hk, hn, fun f c'' herror ↦ ?_⟩
  · rwa [after, hrun]
  · rw [hrun] at herror
    cases herror

theorem proceeds_pure (c : Cursor) (a : α) : Proceeds c (pure a) 0 0 :=
  proceeds_of_ok rfl c.passes_refl (Nat.le_refl _) (Nat.le_refl _)

theorem proceeds_fail (c : Cursor) (fault : Diagnostic.LexicalFault) (line : Nat)
    (lexeme : String) : Proceeds c (fail fault line lexeme : Lexer α) 0 0 := by
  refine ⟨[], [], c.passes_refl, Nat.le_refl _, Nat.le_refl _, fun f c' herror ↦ ?_⟩
  cases herror
  exact ⟨_, fault, rfl, rfl⟩

theorem Proceeds.bind {p : Lexer α} {f : α → Lexer β} (h : Proceeds c p k m)
    (hf : ∀ a c', p.run c = .ok a c' → Proceeds c' (f a) 0 n) :
    Proceeds c (p >>= f) k (n + m) := by
  obtain ⟨us, ts, hpasses, hk, hm, hlexical⟩ := h
  cases hrun : p.run c with
  | error e c' =>
    have hbind : (p >>= f).run c = .error e c' := by rw [EStateM.run_bind, hrun]
    rw [after, hrun] at hpasses
    refine ⟨us, ts, by rwa [after, hbind], hk, by omega, fun e' c'' herror ↦ ?_⟩
    obtain ⟨rfl, rfl⟩ : e = e' ∧ c' = c'' := by simpa [hbind] using herror
    exact hlexical e c' hrun
  | ok a c' =>
    have hbind : (p >>= f).run c = (f a).run c' := by rw [EStateM.run_bind, hrun]
    rw [after, hrun] at hpasses
    obtain ⟨vs, found, hpasses', -, hn, hlexical'⟩ := hf a c' hrun
    refine ⟨us ++ vs, found ++ ts, ?_, ?_, ?_, fun e c'' herror ↦ ?_⟩
    · rw [after, hbind]
      exact hpasses.trans hpasses'
    · rw [List.length_append]
      omega
    · rw [List.length_append]
      omega
    · exact hlexical' e c'' (hbind ▸ herror)

theorem Proceeds.mono {p : Lexer α} (h : Proceeds c p k m) (hn : m ≤ n) : Proceeds c p 0 n := by
  obtain ⟨text, found, hpasses, -, hm, hlexical⟩ := h
  exact ⟨text, found, hpasses, Nat.zero_le _, Nat.le_trans hm hn, hlexical⟩

/-- What is passed is no longer in the rest. -/
theorem Proceeds.length_rest {p : Lexer α} {a : α} (h : Proceeds c p k n)
    (hrun : p.run c = .ok a c') : c'.rest.length + k ≤ c.rest.length := by
  obtain ⟨text, found, hpasses, hk, -, -⟩ := h
  rw [after, hrun] at hpasses
  have hrest : c.rest = text ++ c'.rest := hpasses.rest
  rw [hrest, List.length_append]
  omega

/-! ### Parts of a step -/

theorem proceeds_of_get {f : Cursor → Lexer α} (h : Proceeds c (f c) k n) :
    Proceeds c (get >>= f) k n :=
  h

theorem proceeds_set {text : List Char} (h : c.Passes c' text []) : Proceeds c (set c') 0 0 :=
  proceeds_of_ok rfl h (Nat.zero_le _) (Nat.le_refl _)

theorem proceeds_mark (c : Cursor) : Proceeds c (modify Cursor.mark) 0 0 :=
  proceeds_of_ok rfl c.passes_mark (Nat.le_refl _) (Nat.le_refl _)

theorem proceeds_emit (c : Cursor) (kind : Token.Kind) (literal : Value) :
    Proceeds c (emit kind literal) 0 1 :=
  proceeds_of_ok rfl (c.passes_emit kind literal) (Nat.zero_le _) (Nat.le_refl _)

theorem proceeds_moveWhile (c : Cursor) (p : Char → Bool) :
    Proceeds c (modify (Cursor.moveWhile p)) 0 0 :=
  proceeds_of_ok rfl (c.passes_move _) (Nat.zero_le _) (Nat.le_refl _)

theorem proceeds_accept (c : Cursor) (expected : Char) : Proceeds c (accept expected) 0 0 := by
  by_cases h : c.rest.head? = some expected
  · exact proceeds_of_ok (run_accept_of_head? h) (c.passes_move 1) (Nat.zero_le _) (Nat.le_refl _)
  · exact proceeds_of_ok (run_accept_of_ne h) c.passes_refl (Nat.zero_le _) (Nat.le_refl _)

/-- The text of a comment stands in front of its closing mark. -/
theorem eq_of_commentBody? {text body : List Char} (h : commentBody? text = some body) :
    ∃ rest, text = body ++ '*' :: '/' :: rest := by
  induction text generalizing body with
  | nil => cases h
  | cons x xs ih =>
    by_cases hclose : ['*', '/'] <+: x :: xs
    · obtain ⟨rest, hrest⟩ := hclose
      rw [← hrest] at h ⊢
      cases h
      exact ⟨rest, rfl⟩
    · rw [commentBody?_cons hclose] at h
      obtain ⟨tail, htail, rfl⟩ := Option.map_eq_some_iff.mp h
      obtain ⟨rest, rfl⟩ := ih htail
      exact ⟨rest, rfl⟩

theorem proceeds_skipBlock (c : Cursor) : Proceeds c skipBlock 0 0 := by
  unfold skipBlock
  refine proceeds_of_get ?_
  cases hbody : commentBody? c.rest with
  | some body =>
    obtain ⟨rest, hrest⟩ := eq_of_commentBody? hbody
    refine proceeds_set (Cursor.passes_move_addLines ?_)
    rw [hrest, List.take_length_add_append, Piece.newlines, List.count_append]
    exact Nat.le_add_right _ _
  | none =>
    have hlines : c.rest.count '\n' ≤ Piece.newlines (c.rest.take c.rest.length) := by
      rw [List.take_length, Piece.newlines]
    exact (proceeds_set (Cursor.passes_move_addLines hlines)).bind fun _ _ _ ↦
      proceeds_fail _ _ _ _

theorem proceeds_quotedText (c : Cursor) : Proceeds c quotedText 0 1 := by
  have hlines : (c.rest.takeWhile (· != '"')).count '\n' ≤
      Piece.newlines (c.rest.take (c.rest.takeWhile (· != '"')).length) := by
    rw [← List.prefix_iff_eq_take.mp (List.takeWhile_prefix _), Piece.newlines]
  unfold quotedText
  refine proceeds_of_get ?_
  dsimp only
  refine (proceeds_set (Cursor.passes_move_addLines hlines)).bind fun _ c' hset ↦ ?_
  obtain rfl : _ = c' := (EStateM.Result.ok.inj hset).2
  split
  · exact (proceeds_fail _ _ _ _).mono (Nat.zero_le 1)
  · exact (proceeds_set (Cursor.passes_move 1 _)).bind fun _ c' _ ↦ proceeds_emit c' _ _

theorem proceeds_word (c : Cursor) : Proceeds c word 0 1 :=
  (proceeds_moveWhile c isAlphaNumeric).bind fun _ c' _ ↦
    proceeds_of_get (proceeds_emit c' _ _)

/-- The end of a number: its literal is read from the lexeme, which may be none. -/
theorem proceeds_literal (c : Cursor) (read? : List Char → Option Value) : Proceeds c (do
    let c ← get
    match read? c.lexeme.reverse with
    | some literal => emit .number literal
    | none => fail .malformedNumber c.line c.lexemeText) 0 1 := by
  refine proceeds_of_get ?_
  split
  · exact proceeds_emit c _ _
  · exact (proceeds_fail c _ _ _).mono (Nat.zero_le 1)

theorem proceeds_numeral (c : Cursor) : Proceeds c numeral 0 1 := by
  unfold numeral
  refine (proceeds_moveWhile c isDigit).bind fun _ c' _ ↦ proceeds_of_get ?_
  dsimp only
  split
  · have hpart : Proceeds c' (modify fun c ↦ (c.move 1).moveWhile isDigit) 0 0 :=
      proceeds_of_ok rfl ((c'.passes_move 1).trans (Cursor.passes_move _ _)) (Nat.zero_le _)
        (Nat.le_refl _)
    exact hpart.bind fun _ c'' _ ↦
      proceeds_literal c'' fun text ↦ (Decimal.readFraction? text).map Value.float
  · exact proceeds_literal c' fun text ↦ (Decimal.readInteger? text).map Value.integer

/-! ### Steps -/

theorem proceeds_take {x : Char} {xs : List Char} (h : c.rest = x :: xs) :
    Proceeds c take 1 0 := by
  refine proceeds_of_ok (run_take h) (c.passes_move 1) ?_ (Nat.le_refl _)
  rw [h]
  exact Nat.le_refl 1

theorem run_step_newline {xs : List Char} (h : c.rest = '\n' :: xs) :
    step.run c = .ok () ((c.move 1).addLines 1) := by
  rw [step, EStateM.run_bind, run_take h]
  rfl

/-- What follows a slash. -/
theorem proceeds_slash (c : Cursor) : Proceeds c (do
    if ← accept '/' then skipLine
    else if ← accept '*' then skipBlock
    else emit .slash : Lexer Unit) 0 1 := by
  refine (proceeds_accept c '/').bind fun isLine c' _ ↦ ?_
  split
  · exact (proceeds_moveWhile c' _).mono (Nat.zero_le 1)
  · refine (proceeds_accept c' '*').bind fun isBlock c'' _ ↦ ?_
    split
    · exact (proceeds_skipBlock c'').mono (Nat.zero_le 1)
    · exact proceeds_emit c'' _ _

/-- A step passes the character that is next, and finds at most one token. -/
theorem proceeds_step (h : c.rest ≠ []) : Proceeds c step 1 1 := by
  obtain ⟨x, xs, hrest⟩ := List.exists_cons_of_ne_nil h
  by_cases hx : x = '\n'
  · subst hx
    refine proceeds_of_ok (run_step_newline hrest) (Cursor.passes_move_addLines ?_) ?_
      (Nat.zero_le 1)
    all_goals
      rw [hrest]
      exact Nat.le_refl 1
  unfold step
  refine (proceeds_take hrest).bind fun y c' htake ↦ ?_
  obtain rfl : x = y := (EStateM.Result.ok.inj ((run_take hrest).symm.trans htake)).1
  cases ofSingle? x with
  | some kind => exact proceeds_emit c' kind _
  | none =>
    cases ofDouble? x with
    | some kinds => exact (proceeds_accept c' '=').bind fun joined c'' _ ↦ proceeds_emit c'' _ _
    | none =>
      dsimp only
      split_ifs with hslash hblank hquote hdigit halpha
      · exact proceeds_slash c'
      · exact (proceeds_pure c' ()).mono (Nat.zero_le 1)
      · exact proceeds_quotedText c'
      · exact proceeds_numeral c'
      · exact proceeds_word c'
      · exact proceeds_of_get ((proceeds_fail c' _ _ _).mono (Nat.zero_le 1))

theorem proceeds_stepsWithin (n : Nat) (c : Cursor) : Proceeds c (stepsWithin n) 0 n := by
  induction n generalizing c with
  | zero => exact proceeds_pure c ()
  | succ n ih =>
    refine proceeds_of_get ?_
    split
    · exact (proceeds_pure c ()).mono (Nat.zero_le _)
    · next hspent =>
      refine (proceeds_mark c).bind fun _ c' hrun ↦ ?_
      obtain rfl : c.mark = c' := (EStateM.Result.ok.inj hrun).2
      have hrest : c.rest ≠ [] := by simpa [Cursor.isSpent] using hspent
      exact ((proceeds_step (c := c.mark) hrest).bind fun _ c' _ ↦ ih c').mono (Nat.le_refl _)

theorem proceeds_tokens (c : Cursor) : Proceeds c tokens 0 (1 + c.rest.length) := by
  refine proceeds_of_get ((proceeds_stepsWithin c.rest.length c).bind fun _ c' _ ↦ ?_)
  have hend : c'.Passes { c' with tokens := ⟨.endOfText, "", .nil, c'.line⟩ :: c'.tokens } []
      [⟨.endOfText, "", .nil, c'.line⟩] :=
    ⟨rfl, rfl, Nat.le_refl _, Nat.le_refl _, rfl⟩
  exact proceeds_of_ok rfl hend (Nat.zero_le _) (Nat.le_refl _)

end Lexer

end Source

end LoxLang
