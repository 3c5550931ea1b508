import LoxLang.Proofs.Lexing.Numerals
import LoxLang.Source.Lexing

/-!
One step of the lexer cuts off one piece.

A step looks at the first character and then reads on as the kind of piece that begins with it
requires. Where a piece can be cut off, the step takes its text, counts its line ends and adds its
token, if it has one (`run_step`). Where the text is stuck, the step fails with the diagnostic of
that (`run_step_of_stuck`).
-/

set_option autoImplicit false
set_option relaxedAutoImplicit false

namespace LoxLang.Source

open Token.Kind

variable {before lexeme rest : List Char} {line : Nat} {tokens : List Token}

/-! ### Moving through a text -/

theorem Cursor.move_append (text : List Char) :
    (⟨before, lexeme, text ++ rest, line, tokens⟩ : Cursor).move text.length =
      ⟨before, text.reverse ++ lexeme, rest, line, tokens⟩ := by
  simp [Cursor.move]

theorem Cursor.moveWhile_append {p : Char → Bool} {text : List Char}
    (htext : ∀ c ∈ text, p c = true) (hrest : ∀ c ∈ rest.head?, p c = false) :
    (⟨before, lexeme, text ++ rest, line, tokens⟩ : Cursor).moveWhile p =
      ⟨before, text.reverse ++ lexeme, rest, line, tokens⟩ := by
  unfold Cursor.moveWhile
  rw [takeWhile_append_of_ends htext hrest, Cursor.move_append]

namespace Lexer

section Dispatch

variable {c : Cursor} {x : Char} {xs : List Char}

theorem run_take (h : c.rest = x :: xs) : take.run c = .ok x (c.move 1) := by
  simp only [take, EStateM.run_bind, EStateM.run_get, h]
  rfl

theorem run_step_of_single {kind : Token.Kind} (h : c.rest = x :: xs)
    (hx : ofSingle? x = some kind) : step.run c = (emit kind).run (c.move 1) := by
  rw [step, EStateM.run_bind, run_take h]
  simp only [hx]

theorem run_step_of_double {joined single : Token.Kind} (h : c.rest = x :: xs)
    (hnone : ofSingle? x = none) (hx : ofDouble? x = some (joined, single)) :
    step.run c =
      (do emit (if ← accept '=' then joined else single) : Lexer Unit).run (c.move 1) := by
  rw [step, EStateM.run_bind, run_take h]
  simp only [hnone, hx]

theorem run_step_of_slash (h : c.rest = '/' :: xs) :
    step.run c = (do
      if ← accept '/' then skipLine
      else if ← accept '*' then skipBlock
      else emit .slash : Lexer Unit).run (c.move 1) := by
  rw [step, EStateM.run_bind, run_take h]
  rfl

/-- A character that is neither an operator nor a slash, a quotation mark or a blank is left to the
last branches. -/
theorem run_step_of_plain (h : c.rest = x :: xs)
    (hx : x ∉ Piece.operators ++ '/' :: '"' :: Piece.blanks) :
    step.run c =
      (if isDigit x then numeral
      else if isAlpha x then word
      else do fail .unexpectedCharacter (← get).line (String.singleton x) : Lexer Unit).run
        (c.move 1) := by
  have hsingle : ofSingle? x = none := by
    unfold ofSingle?
    split <;> first | rfl | exact absurd (by decide) hx
  have hdouble : ofDouble? x = none := by
    unfold ofDouble?
    split <;> first | rfl | exact absurd (by decide) hx
  simp only [Piece.blanks, List.mem_append, List.mem_cons, not_or, List.not_mem_nil] at hx
  rw [step, EStateM.run_bind, run_take h]
  simp [hsingle, hdouble, hx]

end Dispatch

/-! ### The rest of a piece -/

theorem run_emit (kind : Token.Kind) (literal : Value) (c : Cursor) :
    (emit kind literal).run c = .ok () (c.emit kind literal) := rfl

theorem run_accept_of_head? {c : Cursor} {x : Char} (h : c.rest.head? = some x) :
    (accept x).run c = .ok true (c.move 1) := by
  simp [accept, Cursor.accept, h]

theorem run_accept_of_ne {c : Cursor} {x : Char} (h : c.rest.head? ≠ some x) :
    (accept x).run c = .ok false c := by
  simp [accept, Cursor.accept, h]

theorem run_skipLine {body : List Char} (hbody : '\n' ∉ body)
    (hrest : ∀ c ∈ rest.head?, c = '\n') :
    skipLine.run ⟨before, lexeme, body ++ rest, line, tokens⟩ =
      .ok () ⟨before, body.reverse ++ lexeme, rest, line, tokens⟩ := by
  have hne : ∀ c ∈ body, (c != '\n') = true := by
    intro c hc
    have hline : c ≠ '\n' := by
      rintro rfl
      exact hbody hc
    simpa using hline
  rw [← Cursor.moveWhile_append hne (by simpa using hrest)]
  rfl

theorem commentBody?_cons {c : Char} {cs : List Char} (h : ¬ ['*', '/'] <+: c :: cs) :
    commentBody? (c :: cs) = (commentBody? cs).map (c :: ·) := by
  rw [commentBody?]
  rintro tail rfl rfl
  exact h ⟨tail, rfl⟩

theorem commentBody?_append {body : List Char} (h : ¬ ['*', '/'] <:+: body ++ ['*']) :
    commentBody? (body ++ '*' :: '/' :: rest) = some body := by
  induction body with
  | nil => rfl
  | cons c cs ih =>
    rw [List.cons_append, List.infix_cons_iff, not_or] at h
    have hstart : ¬ ['*', '/'] <+: c :: (cs ++ '*' :: '/' :: rest) :=
      fun hstart ↦ h.1 (star_slash_prefix_append [] hstart)
    rw [List.cons_append, commentBody?_cons hstart, ih h.2]
    rfl

theorem commentBody?_eq_none {text : List Char} (h : ¬ ['*', '/'] <:+: text) :
    commentBody? text = none := by
  induction text with
  | nil => rfl
  | cons c cs ih =>
    rw [List.infix_cons_iff, not_or] at h
    rw [commentBody?_cons h.1, ih h.2]
    rfl

theorem run_skipBlock {body : List Char} (hbody : ¬ ['*', '/'] <:+: body ++ ['*']) :
    skipBlock.run ⟨before, lexeme, body ++ '*' :: '/' :: rest, line, tokens⟩ =
      .ok () ⟨before, '/' :: '*' :: body.reverse ++ lexeme, rest,
        line + Piece.newlines body, tokens⟩ := by
  have hmove : (⟨before, lexeme, body ++ ['*', '/'] ++ rest, line, tokens⟩ : Cursor).move
      (body ++ ['*', '/']).length =
        ⟨before, (body ++ ['*', '/']).reverse ++ lexeme, rest, line, tokens⟩ :=
    Cursor.move_append _
  simp only [List.append_assoc, List.cons_append, List.nil_append, List.length_append,
    List.length_cons, List.length_nil, List.reverse_append] at hmove
  simp [skipBlock, commentBody?_append hbody, hmove, Cursor.addLines, Piece.newlines]

theorem run_quotedText {body : List Char} (hbody : '"' ∉ body) :
    quotedText.run ⟨before, ['"'], body ++ '"' :: rest, line, tokens⟩ =
      .ok () ⟨before, '"' :: body.reverse ++ ['"'], rest, line + Piece.newlines body,
        ⟨.string, String.ofList ('"' :: body ++ ['"']), .string (String.ofList body),
          ↑(line + Piece.newlines body)⟩ :: tokens⟩ := by
  have hne : ∀ c ∈ body, (c != '"') = true := by
    intro c hc
    have hquote : c ≠ '"' := by
      rintro rfl
      exact hbody hc
    simpa using hquote
  have hrun : (body ++ '"' :: rest).takeWhile (· != '"') = body :=
    takeWhile_append_of_ends hne (by simp)
  simp [quotedText, hrun, Cursor.addLines, Cursor.isSpent, Cursor.move, run_emit, Cursor.emit,
    Cursor.lexemeText, Piece.newlines]

theorem run_word {text : List Char} (htext : ∀ c ∈ text, isAlphaNumeric c = true)
    (hrest : ∀ c ∈ rest.head?, isAlphaNumeric c = false) :
    word.run ⟨before, lexeme, text ++ rest, line, tokens⟩ =
      .ok () ⟨before, text.reverse ++ lexeme, rest, line,
        ⟨ofWord (String.ofList (lexeme.reverse ++ text)), String.ofList (lexeme.reverse ++ text),
          .nil, line⟩ :: tokens⟩ := by
  have hmove : (⟨before, lexeme, text ++ rest, line, tokens⟩ : Cursor).moveWhile isAlphaNumeric =
      ⟨before, text.reverse ++ lexeme, rest, line, tokens⟩ :=
    Cursor.moveWhile_append htext hrest
  simp [word, hmove, run_emit, Cursor.emit, Cursor.lexemeText]

theorem not_fractional {c : Cursor} (h : Piece.Form.integer.Ends c.rest) :
    (decide (c.next = '.') && isDigit c.afterNext) = false := by
  obtain ⟨_, _, rest, _, _⟩ := c
  cases rest with
  | nil => rfl
  | cons x xs =>
    cases xs with
    | nil => simp [Cursor.afterNext, isDigit]
    | cons y ys =>
      simp only [Cursor.next, Cursor.afterNext, List.headD_cons, List.drop_succ_cons,
        List.drop_zero, Bool.and_eq_false_imp]
      intro hx
      obtain rfl : x = '.' := of_decide_eq_true hx
      exact h.2 rfl y rfl

theorem run_numeral_integer {d : Char} {ds : List Char}
    (hdigits : ∀ c ∈ d :: ds, isDigit c = true) (hrest : Piece.Form.integer.Ends rest) :
    numeral.run ⟨before, [d], ds ++ rest, line, tokens⟩ =
      if (d :: ds).length ≤ Decimal.digitLimit then
        .ok () ⟨before, (d :: ds).reverse, rest, line,
          ⟨.number, String.ofList (d :: ds), .integer (Piece.numberOf (d :: ds)), line⟩ :: tokens⟩
      else
        .error (.diagnostic (.atText (.lexical .malformedNumber) line (String.ofList (d :: ds))))
          ⟨before, (d :: ds).reverse, rest, line, tokens⟩ := by
  have hmove : (⟨before, [d], ds ++ rest, line, tokens⟩ : Cursor).moveWhile isDigit =
      ⟨before, ds.reverse ++ [d], rest, line, tokens⟩ :=
    Cursor.moveWhile_append (List.forall_mem_cons.mp hdigits).2 hrest.1
  have hpoint := not_fractional
    (c := ⟨before, ds.reverse ++ [d], rest, line, tokens⟩) hrest
  have hread := readInteger?_eq (by simp) hdigits
  simp only [numeral, EStateM.run_bind, EStateM.run_modify, EStateM.run_get, hmove, hpoint,
    Bool.false_eq_true, if_false, List.reverse_append, List.reverse_reverse,
    List.reverse_singleton, List.singleton_append, hread]
  by_cases hlength : (d :: ds).length ≤ Decimal.digitLimit
  · rw [if_pos hlength, if_pos hlength]
    simp [run_emit, Cursor.emit, Cursor.lexemeText]
  · rw [if_neg hlength, if_neg hlength]
    simp [fail, Cursor.lexemeText]

theorem run_numeral_fraction {d : Char} {ds part : List Char}
    (hwhole : ∀ c ∈ d :: ds, isDigit c = true) (hne : part ≠ [])
    (hpart : ∀ c ∈ part, isDigit c = true) (hrest : ∀ c ∈ rest.head?, isDigit c = false) :
    numeral.run ⟨before, [d], ds ++ '.' :: (part ++ rest), line, tokens⟩ =
      .ok () ⟨before, (d :: ds ++ '.' :: part).reverse, rest, line,
        ⟨.number, String.ofList (d :: ds ++ '.' :: part),
          .float (Float.ofScientific (Piece.numberOf (d :: ds ++ part)) true part.length),
          line⟩ :: tokens⟩ := by
  have hmove : (⟨before, [d], ds ++ '.' :: (part ++ rest), line, tokens⟩ : Cursor).moveWhile
      isDigit = ⟨before, ds.reverse ++ [d], '.' :: (part ++ rest), line, tokens⟩ :=
    Cursor.moveWhile_append (List.forall_mem_cons.mp hwhole).2 (by simp [isDigit])
  have hmovePart : (⟨before, '.' :: (ds.reverse ++ [d]), part ++ rest, line, tokens⟩ :
      Cursor).moveWhile isDigit =
        ⟨before, part.reverse ++ '.' :: (ds.reverse ++ [d]), rest, line, tokens⟩ :=
    Cursor.moveWhile_append hpart hrest
  have hpoint : isDigit ((part ++ rest).headD '\x00') = true := by
    obtain ⟨x, xs, rfl⟩ := List.exists_cons_of_ne_nil hne
    exact hpart x (by simp)
  have hread := readFraction?_eq (List.cons_ne_nil d ds) hne hwhole hpart
  rw [List.cons_append, List.cons_append] at hread
  simp only [numeral, EStateM.run_bind, EStateM.run_modify, EStateM.run_get, hmove, Cursor.next,
    Cursor.afterNext, Cursor.move, List.headD_cons, List.drop_one, List.tail_cons, hpoint]
  simp [hmovePart, hread, run_emit, Cursor.emit, Cursor.lexemeText]

/-! ### One step -/

/-- The marks are the characters that stand for themselves, those before an equals sign or
elsewhere, and the slash. -/
theorem mark_cases : ∀ m ∈ Piece.marks, ∃ x ∈ m.2.head?,
    m.2 = [x] ∧ ofSingle? x = some m.1 ∨
      (ofSingle? x = none ∧ ∃ kinds ∈ ofDouble? x, m.1 = kinds.1 ∧ m.2 = [x, '='] ∨
        m.1 = kinds.2 ∧ m.2 = [x] ∧ m.1 ∈ [bang, equal, greater, less]) ∨
      m.1 = slash ∧ m.2 = ['/'] := by
  simp [Piece.marks, ofSingle?, ofDouble?]

theorem run_step_mark {kind : Token.Kind} {text : List Char} (h : (kind, text) ∈ Piece.marks)
    (hends : (Piece.Form.mark kind).Ends rest) :
    step.run ⟨before, [], text ++ rest, line, tokens⟩ =
      .ok () ⟨before, text.reverse, rest, line,
        ⟨kind, String.ofList text, .nil, line⟩ :: tokens⟩ := by
  obtain ⟨x, -, ⟨rfl, hx⟩ | ⟨hnone, kinds, hx, hkinds⟩ | ⟨rfl, rfl⟩⟩ := mark_cases _ h
  · rw [run_step_of_single rfl hx]
    rfl
  · rcases hkinds with ⟨rfl, rfl⟩ | ⟨rfl, rfl, hjoin⟩
    · rw [run_step_of_double rfl hnone hx, EStateM.run_bind, run_accept_of_head? rfl]
      rfl
    · rw [run_step_of_double rfl hnone hx, EStateM.run_bind, run_accept_of_ne (hends.1 hjoin)]
      rfl
  · obtain ⟨hslash, hstar⟩ := hends.2 rfl
    rw [run_step_of_slash rfl, EStateM.run_bind, run_accept_of_ne hslash]
    simp only [Bool.false_eq_true, if_false, EStateM.run_bind]
    rw [run_accept_of_ne hstar]
    rfl

theorem newlines_of_mem_marks : ∀ m ∈ Piece.marks, Piece.newlines m.2 = 0 := by
  decide

theorem newlines_eq_zero {text : List Char} (h : ∀ c ∈ text, isAlphaNumeric c = true ∨ c = '.') :
    Piece.newlines text = 0 := by
  unfold Piece.newlines
  rw [List.count_eq_zero]
  intro hmem
  exact absurd (h '\n' hmem) (by decide)

theorem isAlphaNumeric_of_isDigit {c : Char} (h : isDigit c = true) : isAlphaNumeric c = true := by
  simp [isAlphaNumeric, h]

theorem isAlphaNumeric_of_isAlpha {c : Char} (h : isAlpha c = true) : isAlphaNumeric c = true := by
  simp [isAlphaNumeric, h]

theorem not_mem_of_isAlphaNumeric {c : Char} (h : isAlphaNumeric c = true) :
    c ∉ Piece.operators ++ '/' :: '"' :: Piece.blanks := by
  intro hc
  simp [Piece.isAlphaNumeric_of_mem c hc] at h

theorem run_step_of_isDigit {x : Char} {xs : List Char} (h : isDigit x = true) :
    step.run ⟨before, [], x :: xs, line, tokens⟩ =
      numeral.run ⟨before, [x], xs, line, tokens⟩ := by
  rw [run_step_of_plain rfl (not_mem_of_isAlphaNumeric (isAlphaNumeric_of_isDigit h)), if_pos h]
  rfl

theorem run_step_of_isAlpha {x : Char} {xs : List Char} (h : isAlpha x = true) :
    step.run ⟨before, [], x :: xs, line, tokens⟩ = word.run ⟨before, [x], xs, line, tokens⟩ := by
  rw [run_step_of_plain rfl (not_mem_of_isAlphaNumeric (isAlphaNumeric_of_isAlpha h)),
    if_neg (by simp [isDigit_of_isAlpha h]), if_pos h]
  rfl

theorem run_step_of_quote {xs : List Char} :
    step.run ⟨before, [], '"' :: xs, line, tokens⟩ =
      quotedText.run ⟨before, ['"'], xs, line, tokens⟩ := by
  rw [step, EStateM.run_bind, run_take rfl]
  rfl

theorem run_step_of_lineComment {xs : List Char} :
    step.run ⟨before, [], '/' :: '/' :: xs, line, tokens⟩ =
      skipLine.run ⟨before, ['/', '/'], xs, line, tokens⟩ := by
  rw [run_step_of_slash rfl, EStateM.run_bind, run_accept_of_head? rfl]
  rfl

theorem run_step_of_blockComment {xs : List Char} :
    step.run ⟨before, [], '/' :: '*' :: xs, line, tokens⟩ =
      skipBlock.run ⟨before, ['*', '/'], xs, line, tokens⟩ := by
  rw [run_step_of_slash rfl, EStateM.run_bind, run_accept_of_ne (by simp [Cursor.move])]
  rfl

theorem run_step_of_blank : ∀ x ∈ Piece.blanks,
    step.run ⟨before, [], x :: rest, line, tokens⟩ =
      .ok () ⟨before, [x], rest, line + Piece.newlines [x], tokens⟩ := by
  simp only [Piece.blanks, List.forall_mem_cons, List.not_mem_nil, IsEmpty.forall_iff,
    implies_true, and_true]
  exact ⟨rfl, rfl, rfl, rfl⟩

theorem literal_fraction {whole part : List Char} (hwhole : whole ≠ []) (hpart : part ≠ [])
    (hw : ∀ c ∈ whole, isDigit c = true) (hp : ∀ c ∈ part, isDigit c = true) :
    Piece.literal ⟨.fraction, whole ++ '.' :: part, .fraction hwhole hpart hw hp⟩ =
      .float (Float.ofScientific (Piece.numberOf (whole ++ part)) true part.length) := by
  have hfilter : (whole ++ '.' :: part).filter (· != '.') = whole ++ part := by
    rw [List.filter_append, List.filter_cons_of_neg (by simp),
      List.filter_eq_self.mpr (ne_point_of_isDigit hw),
      List.filter_eq_self.mpr (ne_point_of_isDigit hp)]
  have hdrop : (whole ++ '.' :: part).dropWhile (· != '.') = '.' :: part :=
    dropWhile_append_of_ends (ne_point_of_isDigit hw) (by simp)
  simp only [Piece.literal, hfilter, hdrop, List.tail_cons]

/-- A step cuts off the piece in front of the text. -/
theorem run_step (p : Piece) (hends : p.form.Ends rest) (hread : p.Readable) :
    step.run ⟨before, [], p.text ++ rest, line, tokens⟩ =
      .ok () ⟨before, p.text.reverse, rest, line + Piece.newlines p.text,
        (p.token? (line + Piece.newlines p.text)).toList ++ tokens⟩ := by
  obtain ⟨form, text, spells⟩ := p
  cases spells with
  | @mark kind text h =>
    have hlines : Piece.newlines text = 0 := newlines_of_mem_marks _ h
    rw [run_step_mark h hends, hlines]
    rfl
  | @string body h =>
    simp only [List.append_assoc, List.cons_append, List.nil_append]
    rw [run_step_of_quote]
    simp [run_quotedText h, Piece.token?, Piece.kind?, Piece.literal, Piece.newlines]
  | @integer digits hne h =>
    obtain ⟨d, ds, rfl⟩ := List.exists_cons_of_ne_nil hne
    have hlines : Piece.newlines (d :: ds) = 0 :=
      newlines_eq_zero fun c hc ↦ .inl (isAlphaNumeric_of_isDigit (h c hc))
    rw [List.cons_append, run_step_of_isDigit (h d (by simp)), run_numeral_integer h hends,
      if_pos (hread rfl), hlines]
    rfl
  | @fraction whole part hwhole hpart hw hp =>
    obtain ⟨d, ds, rfl⟩ := List.exists_cons_of_ne_nil hwhole
    have hlines : Piece.newlines (d :: ds ++ '.' :: part) = 0 := by
      refine newlines_eq_zero fun c hc ↦ ?_
      rcases List.mem_append.mp hc with hc | hc
      · exact .inl (isAlphaNumeric_of_isDigit (hw c hc))
      · rcases List.mem_cons.mp hc with rfl | hc
        · exact .inr rfl
        · exact .inl (isAlphaNumeric_of_isDigit (hp c hc))
    have hliteral : Piece.literal ⟨.fraction, _, .fraction hwhole hpart hw hp⟩ =
        .float (Float.ofScientific (Piece.numberOf (d :: ds ++ part)) true part.length) :=
      literal_fraction hwhole hpart hw hp
    rw [List.append_assoc, List.cons_append, List.cons_append,
      run_step_of_isDigit (hw d (by simp)), run_numeral_fraction hw hpart hp hends, hlines]
    simp only [Piece.token?, Piece.kind?, hliteral]
    rfl
  | @word c cs hc hcs =>
    have hlines : Piece.newlines (c :: cs) = 0 := by
      refine newlines_eq_zero (List.forall_mem_cons.mpr ⟨?_, fun x hx ↦ .inl (hcs x hx)⟩)
      exact .inl (isAlphaNumeric_of_isAlpha hc)
    rw [List.cons_append, run_step_of_isAlpha hc, run_word hcs hends, hlines]
    simp [Piece.token?, Piece.kind?, Piece.literal]
  | @blank c h => exact run_step_of_blank c h
  | @lineComment body h =>
    have hlines : Piece.newlines ('/' :: '/' :: body) = 0 := by
      simpa [Piece.newlines, List.count_eq_zero] using h
    rw [List.cons_append, List.cons_append, run_step_of_lineComment, run_skipLine h hends, hlines]
    simp [Piece.token?, Piece.kind?]
  | @blockComment body h =>
    simp only [List.append_assoc, List.cons_append, List.nil_append]
    rw [run_step_of_blockComment, run_skipBlock h]
    simp [Piece.token?, Piece.kind?, Piece.newlines]

theorem run_quotedText_of_not_mem {cs : List Char} (h : '"' ∉ cs) :
    ∃ c, quotedText.run ⟨before, lexeme, cs, line, tokens⟩ =
      .error (.diagnostic (.atText (.lexical .unterminatedString)
        ↑(line + Piece.newlines cs) "")) c := by
  have hrun : cs.takeWhile (· != '"') = cs := by
    have hne : ∀ c ∈ cs, (c != '"') = true := by
      intro c hc
      simpa using fun heq : c = '"' ↦ h (heq ▸ hc)
    have hall : (cs ++ []).takeWhile (· != '"') = cs := takeWhile_append_of_ends hne (by simp)
    rwa [List.append_nil] at hall
  simp [quotedText, hrun, Cursor.move, Cursor.addLines, Cursor.isSpent, fail, Piece.newlines]

theorem run_skipBlock_of_not_infix {cs : List Char} (h : ¬ ['*', '/'] <:+: cs) :
    ∃ c, skipBlock.run ⟨before, lexeme, cs, line, tokens⟩ =
      .error (.diagnostic (.atText (.lexical .unterminatedComment) line "")) c := by
  simp [skipBlock, commentBody?_eq_none h, fail]

/-- Every character but a quotation mark that begins some kind of piece is itself a piece. -/
theorem exists_spells_singleton {c : Char}
    (h : c ∈ Piece.operators ++ '/' :: Piece.blanks ∨ isAlphaNumeric c = true) :
    ∃ form, Piece.Form.Spells form [c] := by
  simp only [List.mem_append, List.mem_cons, isAlphaNumeric, Bool.or_eq_true] at h
  rcases h with (h | rfl | h) | h | h
  · obtain ⟨m, hm, htext, -⟩ := Piece.marks_of_mem_operators c h
    exact ⟨.mark m.1, htext ▸ .mark hm⟩
  · exact ⟨.mark slash, .mark (by decide)⟩
  · exact ⟨.blank, .blank h⟩
  · exact ⟨.word, .word h (by simp)⟩
  · exact ⟨.integer, .integer (by simp) (by simpa using h)⟩

/-- A step fails where the text is stuck. -/
theorem run_step_of_stuck {source : List Char} {d : Diagnostic}
    (h : Piece.Stuck line source d) :
    ∃ c, step.run ⟨before, [], source, line, tokens⟩ = .error (.diagnostic d) c := by
  cases h with
  | @unexpected c cs hquote h =>
    have hsingleton : ¬ (c ∈ Piece.operators ++ '/' :: Piece.blanks ∨ isAlphaNumeric c = true) := by
      intro hc
      obtain ⟨form, hform⟩ := exists_spells_singleton hc
      exact h ⟨form, _, hform⟩ ⟨cs, rfl⟩
    obtain ⟨hplain, hletter⟩ := not_or.mp hsingleton
    simp only [isAlphaNumeric, Bool.or_eq_true, not_or] at hletter
    rw [run_step_of_plain rfl (by simpa [hquote] using hplain), if_neg hletter.2,
      if_neg hletter.1]
    exact ⟨_, rfl⟩
  | openString h =>
    rw [run_step_of_quote]
    exact run_quotedText_of_not_mem h
  | openComment h =>
    rw [run_step_of_blockComment]
    exact run_skipBlock_of_not_infix h
  | @tooLong p cs hp h =>
    have hends := (Piece.leads_iff_ends p cs).mp hp
    obtain ⟨form, text, spells⟩ := p
    obtain ⟨rfl, hlength⟩ : form = .integer ∧ ¬ text.length ≤ Decimal.digitLimit := by
      simpa [Piece.Readable] using h
    cases spells with
    | integer hne hdigits =>
      obtain ⟨d, ds, rfl⟩ := List.exists_cons_of_ne_nil hne
      rw [List.cons_append, run_step_of_isDigit (hdigits d (by simp)),
        run_numeral_integer hdigits hends, if_neg hlength]
      exact ⟨_, rfl⟩

end Lexer

end LoxLang.Source
