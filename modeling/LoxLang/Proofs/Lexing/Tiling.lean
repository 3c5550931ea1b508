import LoxLang.Proofs.Lexing.Steps

/-!
The lexer cuts a text into its longest pieces.

In front of every text stands a piece that can be cut off, unless the text is stuck
(`starts_or_stuck`), so every text is a row of longest pieces up to its end or up to where it is
stuck (`exists_row`). The lexer follows that row piece by piece (`run_stepsWithin`), which
determines its tokens and its diagnostics (`tokenize_longest_pieces`).
-/

set_option autoImplicit false
set_option relaxedAutoImplicit false

namespace LoxLang.Source

open Token.Kind

namespace Piece

/-! ### The piece in front of a text -/

/-- A text begins with a run of characters with a property that ends where the property does. -/
theorem exists_run (p : Char → Bool) (source : List Char) :
    ∃ run rest, source = run ++ rest ∧ (∀ c ∈ run, p c = true) ∧
      ∀ c ∈ rest.head?, p c = false := by
  refine ⟨source.takeWhile p, source.dropWhile p, List.takeWhile_append_dropWhile.symm,
    fun c hc ↦ List.all_eq_true.mp List.all_takeWhile c hc, fun c hc ↦ ?_⟩
  simpa [Option.mem_def.mp hc] using List.head?_dropWhile_not p source

/-- The first star before a slash. -/
theorem exists_comment_end {source : List Char} (h : ['*', '/'] <:+: source) :
    ∃ body rest, source = body ++ '*' :: '/' :: rest ∧ ¬ ['*', '/'] <:+: body ++ ['*'] := by
  induction source with
  | nil => simp at h
  | cons c cs ih =>
    by_cases hstart : ['*', '/'] <+: c :: cs
    · obtain ⟨rest, hrest⟩ := hstart
      refine ⟨[], rest, hrest.symm, fun hinfix ↦ ?_⟩
      simpa using hinfix.length_le
    · obtain ⟨body, rest, rfl, hbody⟩ := ih ((List.infix_cons_iff.mp h).resolve_left hstart)
      refine ⟨c :: body, rest, rfl, fun hinfix ↦ ?_⟩
      rcases List.infix_cons_iff.mp hinfix with hprefix | hinfix
      · exact hstart (star_slash_prefix_append _ hprefix)
      · exact hbody hinfix

/-- A piece can be cut off in front of a text. -/
def Starts (source : List Char) : Prop :=
  ∃ p : Piece, ∃ rest, source = p.text ++ rest ∧ p.form.Ends rest ∧ p.Readable

theorem starts_of_spells {form : Form} {text rest : List Char} (h : form.Spells text)
    (hends : form.Ends rest) (hform : form ≠ .integer) : Starts (text ++ rest) :=
  ⟨⟨form, text, h⟩, rest, rfl, hends, fun hinteger ↦ absurd hinteger hform⟩

theorem starts_of_mem_operators {c : Char} {cs : List Char} (h : c ∈ operators) :
    Starts (c :: cs) := by
  obtain ⟨m, hm, htext, hslash, hjoin⟩ := marks_of_mem_operators c h
  by_cases hequal : m.1 ∈ [bang, equal, greater, less] ∧ cs.head? = some '='
  · obtain ⟨m', hm', htext', hkind⟩ := hjoin hequal.1
    obtain ⟨rest, rfl⟩ := List.head?_eq_some_iff.mp hequal.2
    have hspells : (Form.mark m'.1).Spells [c, '='] := htext' ▸ .mark hm'
    rw [List.mem_cons, not_or] at hkind
    exact starts_of_spells hspells
      ⟨fun hmem ↦ absurd hmem hkind.2, fun heq ↦ absurd heq hkind.1⟩ (by simp)
  · have hspells : (Form.mark m.1).Spells [c] := htext ▸ .mark hm
    exact starts_of_spells hspells
      ⟨fun hmem hhead ↦ hequal ⟨hmem, hhead⟩, fun heq ↦ absurd heq hslash⟩ (by simp)

theorem starts_or_stuck_of_slash (line : Nat) (cs : List Char) :
    Starts ('/' :: cs) ∨ ∃ d, Stuck line ('/' :: cs) d := by
  by_cases hline : cs.head? = some '/'
  · obtain ⟨rest, rfl⟩ := List.head?_eq_some_iff.mp hline
    obtain ⟨body, rest, rfl, hbody, hrest⟩ := exists_run (· != '\n') rest
    have hspells : Form.lineComment.Spells ('/' :: '/' :: body) :=
      .lineComment fun hmem ↦ by simpa using hbody '\n' hmem
    exact .inl (starts_of_spells hspells (by simpa [Form.Ends] using hrest) (by simp))
  · by_cases hblock : cs.head? = some '*'
    · obtain ⟨rest, rfl⟩ := List.head?_eq_some_iff.mp hblock
      by_cases hclosed : ['*', '/'] <:+: rest
      · obtain ⟨body, rest, rfl, hbody⟩ := exists_comment_end hclosed
        have hstarts : Starts ('/' :: '*' :: body ++ ['*', '/'] ++ rest) :=
          starts_of_spells (.blockComment hbody) trivial (by simp)
        exact .inl (by simpa using hstarts)
      · exact .inr ⟨_, .openComment hclosed⟩
    · have hspells : (Form.mark slash).Spells ['/'] := .mark (by decide)
      exact .inl (starts_of_spells hspells
        ⟨fun hmem ↦ absurd hmem (by decide), fun _ ↦ ⟨hline, hblock⟩⟩ (by simp))

theorem starts_or_stuck_of_quote (line : Nat) (cs : List Char) :
    Starts ('"' :: cs) ∨ ∃ d, Stuck line ('"' :: cs) d := by
  by_cases hclosed : '"' ∈ cs
  · obtain ⟨body, rest, rfl, hbody⟩ := List.eq_append_cons_of_mem hclosed
    have hstarts : Starts ('"' :: body ++ ['"'] ++ rest) :=
      starts_of_spells (.string hbody) trivial (by simp)
    exact .inl (by simpa using hstarts)
  · exact .inr ⟨_, .openString hclosed⟩

theorem starts_or_stuck_of_isDigit (line : Nat) {c : Char} {cs : List Char}
    (h : isDigit c = true) : Starts (c :: cs) ∨ ∃ d, Stuck line (c :: cs) d := by
  obtain ⟨whole, rest, hcs, hwhole, hrest⟩ := exists_run isDigit (c :: cs)
  have hne : whole ≠ [] := by
    rintro rfl
    simp only [List.nil_append] at hcs
    simp [hrest c (by simp [← hcs])] at h
  rw [hcs]
  by_cases hpoint : rest.head? = some '.' ∧ ∃ d ∈ rest.tail.head?, isDigit d = true
  · obtain ⟨hpoint, d, hd, hdigit⟩ := hpoint
    obtain ⟨tail, rfl⟩ := List.head?_eq_some_iff.mp hpoint
    obtain ⟨part, after, rfl, hpart, hafter⟩ := exists_run isDigit tail
    have hpartne : part ≠ [] := by
      rintro rfl
      simp [hafter d hd] at hdigit
    have hstarts := starts_of_spells (.fraction hne hpartne hwhole hpart) hafter (by simp)
    exact .inl (by simpa using hstarts)
  · have hends : Form.integer.Ends rest := by
      refine ⟨hrest, fun hhead d hd ↦ ?_⟩
      by_contra hdigit
      exact hpoint ⟨hhead, d, hd, by simpa using hdigit⟩
    have hspells : Form.integer.Spells whole := .integer hne hwhole
    by_cases hlength : whole.length ≤ Decimal.digitLimit
    · exact .inl ⟨⟨.integer, whole, hspells⟩, rest, rfl, hends, fun _ ↦ hlength⟩
    · refine .inr ⟨_, .tooLong (p := ⟨.integer, whole, hspells⟩) ?_ fun h ↦ hlength (h rfl)⟩
      exact (leads_iff_ends _ rest).mpr hends

theorem starts_of_isAlpha {c : Char} {cs : List Char} (h : isAlpha c = true) :
    Starts (c :: cs) := by
  obtain ⟨body, rest, rfl, hbody, hrest⟩ := exists_run isAlphaNumeric cs
  exact starts_of_spells (.word h hbody) hrest (by simp)

/-- The character in front of a text with a piece in front of it opens that piece. -/
theorem opening_of_prefix (p : Piece) {c : Char} {cs : List Char} (h : p.text <+: c :: cs) :
    Opening.of? c = some p.form.opening := by
  have hopening := p.spells.opening
  obtain ⟨x, xs, htext⟩ := List.exists_cons_of_ne_nil p.spells.ne_nil
  rw [htext] at h hopening
  obtain ⟨rfl, -⟩ := List.cons_prefix_cons.mp h
  exact hopening

/-- Either a piece can be cut off in front of a text or the text is stuck. -/
theorem starts_or_stuck (line : Nat) {source : List Char} (hne : source ≠ []) :
    Starts source ∨ ∃ d, Stuck line source d := by
  obtain ⟨c, cs, rfl⟩ := List.exists_cons_of_ne_nil hne
  by_cases hoperator : c ∈ operators
  · exact .inl (starts_of_mem_operators hoperator)
  by_cases hslash : c = '/'
  · exact hslash ▸ starts_or_stuck_of_slash line cs
  by_cases hquote : c = '"'
  · exact hquote ▸ starts_or_stuck_of_quote line cs
  by_cases hblank : c ∈ blanks
  · exact .inl (starts_of_spells (.blank hblank) trivial (by simp))
  by_cases hdigit : isDigit c
  · exact starts_or_stuck_of_isDigit line hdigit
  by_cases halpha : isAlpha c
  · exact .inl (starts_of_isAlpha halpha)
  refine .inr ⟨_, .unexpected hquote fun p hp ↦ ?_⟩
  have hopening := opening_of_prefix p hp
  rw [Opening.of?, if_neg hoperator, if_neg hslash, if_neg hquote, if_neg hblank,
    if_neg hdigit, if_neg halpha] at hopening
  exact absurd hopening (by simp)

/-! ### Rows of pieces -/

@[simp] theorem newlines_append (us vs : List Char) :
    newlines (us ++ vs) = newlines us + newlines vs :=
  List.count_append

@[simp] theorem spell_nil : spell [] = [] := rfl

@[simp] theorem spell_cons (p : Piece) (ps : List Piece) : spell (p :: ps) = p.text ++ spell ps :=
  rfl

theorem length_le_length_spell (ps : List Piece) : ps.length ≤ (spell ps).length := by
  induction ps with
  | nil => exact le_rfl
  | cons p ps ih =>
    have hpos : 0 < p.text.length := List.length_pos_iff.mpr p.spells.ne_nil
    rw [spell_cons, List.length_append, List.length_cons]
    omega

theorem Stuck.ne_nil {line : Nat} {source : List Char} {d : Diagnostic}
    (h : Stuck line source d) : source ≠ [] := by
  cases h with
  | @tooLong p cs _ _ => simp [p.spells.ne_nil]
  | _ => simp

theorem Stuck.lexical {line : Nat} {source : List Char} {d : Diagnostic}
    (h : Stuck line source d) : ∃ fault, d.cause = .lexical fault := by
  cases h <;> exact ⟨_, rfl⟩

/-- A row of longest pieces that ends with the text, or where the text is stuck. -/
def Row (line : Nat) (source : List Char) (ps : List Piece) (rest : List Char) : Prop :=
  source = spell ps ++ rest ∧ Tiles ps rest ∧ (∀ p ∈ ps, p.Readable) ∧
    (rest = [] ∨ ∃ d, Stuck (line + newlines (spell ps)) rest d)

theorem Row.cons {line : Nat} {source rest : List Char} {p : Piece} {ps : List Piece}
    (hends : p.form.Ends source) (hread : p.Readable)
    (h : Row (line + newlines p.text) source ps rest) :
    Row line (p.text ++ source) (p :: ps) rest := by
  obtain ⟨hsource, htiles, hall, hend⟩ := h
  refine ⟨by rw [hsource, spell_cons, List.append_assoc], ⟨?_, htiles⟩,
    List.forall_mem_cons.mpr ⟨hread, hall⟩, ?_⟩
  · rw [← hsource]
    exact (leads_iff_ends p source).mpr hends
  · rw [spell_cons, newlines_append, ← Nat.add_assoc]
    exact hend

/-- Every text is a row of longest pieces up to its end or up to where it is stuck. -/
theorem exists_row (line : Nat) (source : List Char) : ∃ ps rest, Row line source ps rest := by
  -- The pieces are not empty, so the text gets shorter with each of them.
  induction hlength : source.length using Nat.strongRecOn generalizing line source with
  | ind n ih =>
    by_cases hne : source = []
    · exact ⟨[], [], by simpa using hne, trivial, by simp, .inl rfl⟩
    · rcases starts_or_stuck line hne with ⟨p, tail, rfl, hends, hread⟩ | hstuck
      · have hpos : 0 < p.text.length := List.length_pos_iff.mpr p.spells.ne_nil
        rw [List.length_append] at hlength
        obtain ⟨ps, rest, hrow⟩ := ih tail.length (by omega) (line + newlines p.text) tail rfl
        exact ⟨p :: ps, rest, hrow.cons hends hread⟩
      · exact ⟨[], source, rfl, trivial, by simp, .inr hstuck⟩

end Piece

namespace Lexer

open Piece

variable {before lexeme rest : List Char} {line : Nat} {tokens : List Token}

/-! ### The run over a row -/

theorem stepsWithin_succ (n : Nat) (h : rest ≠ []) :
    (stepsWithin (n + 1)).run ⟨before, lexeme, rest, line, tokens⟩ =
      (step >>= fun _ ↦ stepsWithin n).run ⟨lexeme ++ before, [], rest, line, tokens⟩ := by
  have hspent : rest.isEmpty = false := by simpa using h
  simp only [stepsWithin, EStateM.run_bind, EStateM.run_get, Cursor.isSpent, hspent,
    Bool.false_eq_true, if_false, EStateM.run_modify, Cursor.mark]

theorem stepsWithin_nil (n : Nat) :
    (stepsWithin n).run ⟨before, lexeme, [], line, tokens⟩ =
      .ok () ⟨before, lexeme, [], line, tokens⟩ := by
  cases n <;> rfl

theorem stepsWithin_piece (n : Nat) (p : Piece) (hends : p.form.Ends rest) (hread : p.Readable) :
    (stepsWithin (n + 1)).run ⟨before, lexeme, p.text ++ rest, line, tokens⟩ =
      (stepsWithin n).run ⟨lexeme ++ before, p.text.reverse, rest, line + newlines p.text,
        (p.token? (line + newlines p.text)).toList ++ tokens⟩ := by
  have hne : p.text ++ rest ≠ [] := by simp [p.spells.ne_nil]
  rw [stepsWithin_succ n hne, EStateM.run_bind, run_step p hends hread]

/-- The lexer takes one step for each piece of a row. -/
theorem run_stepsWithin (before lexeme : List Char) (line : Nat) (tokens : List Token)
    {ps : List Piece} (htiles : Tiles ps rest) (hread : ∀ p ∈ ps, p.Readable) (n : Nat) :
    ∃ before' lexeme',
      (stepsWithin (ps.length + n)).run ⟨before, lexeme, spell ps ++ rest, line, tokens⟩ =
        (stepsWithin n).run ⟨before', lexeme', rest, line + newlines (spell ps),
          (tokensFrom line ps).reverse ++ tokens⟩ := by
  induction ps generalizing before lexeme line tokens with
  | nil => exact ⟨before, lexeme, by simp [newlines, tokensFrom]⟩
  | cons p ps ih =>
    obtain ⟨hleads, htiles⟩ := htiles
    obtain ⟨hp, hps⟩ := List.forall_mem_cons.mp hread
    have hends := (leads_iff_ends p _).mp hleads
    obtain ⟨before', lexeme', hrun⟩ := ih (lexeme ++ before) p.text.reverse
      (line + newlines p.text) ((p.token? (line + newlines p.text)).toList ++ tokens) htiles hps
    have hone : (p.token? (line + newlines p.text)).toList.reverse =
        (p.token? (line + newlines p.text)).toList := by
      cases p.token? (line + newlines p.text) <;> rfl
    refine ⟨before', lexeme', ?_⟩
    rw [List.length_cons, Nat.add_right_comm, spell_cons, List.append_assoc,
      stepsWithin_piece _ p hends hp, hrun, newlines_append, tokensFrom, List.reverse_append, hone,
      List.append_assoc, Nat.add_assoc]

end Lexer

open Piece

/-- The token that marks the end of a text. -/
def endToken (source : List Char) : Token :=
  ⟨.endOfText, "", .nil, ↑(1 + newlines source)⟩

theorem tokenize_of_tiles {source : String} {ps : List Piece} (hsource : spell ps = source.toList)
    (htiles : Tiles ps []) (hread : ∀ p ∈ ps, p.Readable) :
    tokenize source = .ok (tokensFrom 1 ps ++ [endToken source.toList]) := by
  obtain ⟨n, hn⟩ := Nat.exists_eq_add_of_le (length_le_length_spell ps)
  obtain ⟨before, lexeme, hrun⟩ := Lexer.run_stepsWithin [] [] 1 [] htiles hread n
  rw [← hn, List.append_nil, Lexer.stepsWithin_nil, hsource] at hrun
  simp only [tokenize, Lexer.tokens, EStateM.run_bind, EStateM.run_get, Cursor.ofText, hrun]
  simp [endToken]

theorem tokenize_of_stuck {source : String} {ps : List Piece} {rest : List Char} {d : Diagnostic}
    (hsource : spell ps ++ rest = source.toList) (htiles : Tiles ps rest)
    (hread : ∀ p ∈ ps, p.Readable) (hstuck : Stuck (1 + newlines (spell ps)) rest d) :
    tokenize source = .error (.diagnostic d) := by
  have hne : rest ≠ [] := hstuck.ne_nil
  have hpos : 0 < rest.length := List.length_pos_iff.mpr hne
  have hlength := length_le_length_spell ps
  obtain ⟨n, hn⟩ : ∃ n, (spell ps ++ rest).length = ps.length + (n + 1) := by
    refine ⟨(spell ps ++ rest).length - ps.length - 1, ?_⟩
    rw [List.length_append]
    omega
  obtain ⟨before, lexeme, hrun⟩ := Lexer.run_stepsWithin [] [] 1 [] htiles hread (n + 1)
  obtain ⟨c, hstep⟩ : ∃ c, Lexer.step.run ⟨lexeme ++ before, [], rest, 1 + newlines (spell ps),
      (tokensFrom 1 ps).reverse ++ []⟩ = .error (.diagnostic d) c :=
    Lexer.run_step_of_stuck hstuck
  rw [← hn, Lexer.stepsWithin_succ n hne, EStateM.run_bind, hstep] at hrun
  simp only [tokenize, Lexer.tokens, EStateM.run_bind, EStateM.run_get, Cursor.ofText, ← hsource,
    hrun]

/-- Every text is read piece by piece to its end, or up to where it is stuck. -/
theorem tokenize_cases (source : String) :
    (∃ ps, spell ps = source.toList ∧ Tiles ps [] ∧ (∀ p ∈ ps, p.Readable) ∧
      tokenize source = .ok (tokensFrom 1 ps ++ [endToken source.toList])) ∨
    ∃ ps rest d, spell ps ++ rest = source.toList ∧ Tiles ps rest ∧ (∀ p ∈ ps, p.Readable) ∧
      Stuck (1 + newlines (spell ps)) rest d ∧ tokenize source = .error (.diagnostic d) := by
  obtain ⟨ps, rest, hsource, htiles, hread, hend⟩ := exists_row 1 source.toList
  rcases hend with rfl | ⟨d, hstuck⟩
  · rw [List.append_nil] at hsource
    exact .inl ⟨ps, hsource.symm, htiles, hread, tokenize_of_tiles hsource.symm htiles hread⟩
  · exact .inr ⟨ps, rest, d, hsource.symm, htiles, hread, hstuck,
      tokenize_of_stuck hsource.symm htiles hread hstuck⟩

/-- The lexer reads a text exactly if it is a row of longest pieces of which the whole numbers are
not too long. Its tokens are then those of the pieces, followed by one token for the end of the
text. Otherwise it fails where the row is stuck. -/
theorem tokenize_longest_pieces (source : String) :
    (∀ tokens, tokenize source = .ok tokens ↔
      ∃ ps, spell ps = source.toList ∧ Tiles ps [] ∧ (∀ p ∈ ps, p.Readable) ∧
        tokens = tokensFrom 1 ps ++ [endToken source.toList]) ∧
    (∀ failure, tokenize source = .error failure ↔
      ∃ ps rest d, spell ps ++ rest = source.toList ∧ Tiles ps rest ∧ (∀ p ∈ ps, p.Readable) ∧
        Stuck (1 + newlines (spell ps)) rest d ∧ failure = .diagnostic d) := by
  constructor
  · intro tokens
    constructor
    · intro h
      rcases tokenize_cases source with ⟨ps, hsource, htiles, hread, hok⟩ |
        ⟨ps, rest, d, -, -, -, -, herror⟩
      · exact ⟨ps, hsource, htiles, hread, Except.ok.inj (h.symm.trans hok)⟩
      · cases h.symm.trans herror
    · rintro ⟨ps, hsource, htiles, hread, rfl⟩
      exact tokenize_of_tiles hsource htiles hread
  · intro failure
    constructor
    · intro h
      rcases tokenize_cases source with ⟨ps, -, -, -, hok⟩ |
        ⟨ps, rest, d, hsource, htiles, hread, hstuck, herror⟩
      · cases h.symm.trans hok
      · exact ⟨ps, rest, d, hsource, htiles, hread, hstuck,
          Except.error.inj (h.symm.trans herror)⟩
    · rintro ⟨ps, rest, d, hsource, htiles, hread, hstuck, rfl⟩
      exact tokenize_of_stuck hsource htiles hread hstuck

end LoxLang.Source
