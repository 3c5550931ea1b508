import LoxLang.Proofs.Grammar
import LoxLang.Proofs.Lexing.Tiling
import LoxLang.Proofs.Likeness

/-!
Texts that are joined by a line end.

No piece but a line comment goes on after a blank that it did not reach by itself
(`Form.Ends.append_blank`), and a line comment ends at a line end. So a text that can be read is
read in the same way in front of a line end and more text. What follows is read as if it stood
alone, further down (`tokenize_join`).
-/

set_option autoImplicit false
set_option relaxedAutoImplicit false

namespace LoxLang.Source

open Token.Kind

namespace Piece

/-! ### Rows in front of a blank -/

theorem Form.ends_nil (form : Form) : form.Ends [] := by
  cases form <;> simp [Form.Ends]

/-- No piece goes on with the character, apart from strings and comments. -/
structure Severs (c : Char) : Prop where
  letter : isAlphaNumeric c = false
  digit : isDigit c = false
  symbol : c ∉ ['.', '=', '/', '*']

theorem severs_of_mem_blanks : ∀ c ∈ blanks, Severs c := by
  intro c hc
  simp only [blanks, List.mem_cons, List.not_mem_nil, or_false] at hc
  rcases hc with rfl | rfl | rfl | rfl <;> exact ⟨by decide, by decide, by decide⟩

/-- What ends a piece still ends it with a severing character and more text after it. A line comment
that reaches the character needs a line end. -/
theorem Form.Ends.append_severing {form : Form} {rest : List Char} (h : form.Ends rest) {c : Char}
    (hc : Severs c) (hform : rest = [] → form = .lineComment → c = '\n') (more : List Char) :
    form.Ends (rest ++ c :: more) := by
  obtain ⟨hletter, hdigit, hplain⟩ := hc
  simp only [List.mem_cons, List.not_mem_nil, or_false, not_or] at hplain
  cases rest with
  | nil =>
    cases form with
    | lineComment => simpa [Ends] using hform rfl rfl
    | _ => simp [Ends, hletter, hdigit, hplain]
  | cons x xs =>
    cases form with
    | integer =>
      refine ⟨h.1, fun hpoint d hd ↦ ?_⟩
      -- The second character is `c` if the text before it ends with the point.
      cases xs with
      | nil =>
        obtain rfl : c = d := by simpa using hd
        exact hdigit
      | cons y ys => exact h.2 hpoint d hd
    | _ => exact h

/-- What ends a piece still ends it with a blank and more text after it. A line comment that reaches
the blank needs a line end. -/
theorem Form.Ends.append_blank {form : Form} {rest : List Char} (h : form.Ends rest) {c : Char}
    (hc : c ∈ blanks) (hform : form = .lineComment → c = '\n') (more : List Char) :
    form.Ends (rest ++ c :: more) :=
  h.append_severing (severs_of_mem_blanks c hc) (fun _ ↦ hform) more

theorem Tiles.append_blank {ps : List Piece} {rest : List Char} (h : Tiles ps rest) {c : Char}
    (hc : c ∈ blanks) (hps : ∀ p ∈ ps, p.form = .lineComment → c = '\n') (more : List Char) :
    Tiles ps (rest ++ c :: more) := by
  induction ps with
  | nil => exact trivial
  | cons p ps ih =>
    obtain ⟨hleads, htiles⟩ := h
    obtain ⟨hp, hps⟩ := List.forall_mem_cons.mp hps
    refine ⟨?_, ih htiles hps⟩
    have hends := (leads_iff_ends p _).mp hleads
    rw [← List.append_assoc (spell ps), leads_iff_ends]
    exact hends.append_blank hc hp more

instance decidableTiles : (ps : List Piece) → (rest : List Char) → Decidable (Tiles ps rest)
  | [], _ => inferInstanceAs (Decidable True)
  | p :: ps, rest =>
    have := decidableTiles ps rest
    decidable_of_iff (p.form.Ends (spell ps ++ rest) ∧ Tiles ps rest)
      (and_congr_left' (leads_iff_ends p _).symm)

@[simp] theorem spell_append (ps qs : List Piece) : spell (ps ++ qs) = spell ps ++ spell qs :=
  List.flatMap_append

theorem tiles_append {ps qs : List Piece} {rest : List Char} :
    Tiles (ps ++ qs) rest ↔ Tiles ps (spell qs ++ rest) ∧ Tiles qs rest := by
  induction ps with
  | nil => simp [Tiles]
  | cons p ps ih =>
    simp only [List.cons_append, Tiles, spell_append, List.append_assoc, ih, and_assoc]

/-- The piece of a blank. -/
def ofBlank {c : Char} (hc : c ∈ blanks) : Piece := ⟨.blank, [c], .blank hc⟩

/-- The piece that ends a line. -/
def newline : Piece := ⟨.blank, ['\n'], .blank (by decide)⟩

theorem tiles_join {ps qs : List Piece} {rest : List Char} (hps : Tiles ps [])
    (hqs : Tiles qs rest) {c : Char} (hc : c ∈ blanks)
    (hcomment : ∀ p ∈ ps, p.form = .lineComment → c = '\n') :
    Tiles (ps ++ ofBlank hc :: qs) rest := by
  have hfront := hps.append_blank hc hcomment (spell qs ++ rest)
  have hblank : (ofBlank hc).Leads ((ofBlank hc).text ++ (spell qs ++ rest)) :=
    (leads_iff_ends _ _).mpr trivial
  exact tiles_append.mpr ⟨by simpa [ofBlank] using hfront, hblank, hqs⟩

theorem readable_join {ps qs : List Piece} (hps : ∀ p ∈ ps, p.Readable)
    (hqs : ∀ p ∈ qs, p.Readable) {c : Char} (hc : c ∈ blanks) :
    ∀ p ∈ ps ++ ofBlank hc :: qs, p.Readable := by
  have hblank : (ofBlank hc).Readable := fun h ↦ by cases h
  exact List.forall_mem_append.mpr ⟨hps, List.forall_mem_cons.mpr ⟨hblank, hqs⟩⟩

/-! ### Tokens further down -/

theorem tokensFrom_append (line : Nat) (ps qs : List Piece) :
    tokensFrom line (ps ++ qs) =
      tokensFrom line ps ++ tokensFrom (line + newlines (spell ps)) qs := by
  induction ps generalizing line with
  | nil => simp [tokensFrom, newlines]
  | cons p ps ih => simp [tokensFrom, ih, Nat.add_assoc]

theorem token?_add (line k : Nat) (p : Piece) :
    p.token? (line + k) = (p.token? line).map (Token.moveLine k) := by
  simp [token?, Token.moveLine, Function.comp_def]

theorem tokensFrom_add (line k : Nat) (ps : List Piece) :
    tokensFrom (line + k) ps = (tokensFrom line ps).map (Token.moveLine k) := by
  induction ps generalizing line with
  | nil => rfl
  | cons p ps ih =>
    rw [tokensFrom, Nat.add_right_comm, token?_add, ih, tokensFrom, List.map_append]
    cases p.token? (line + newlines p.text) <;> rfl

theorem Stuck.add {line : Nat} {source : List Char} {d : Diagnostic} (h : Stuck line source d)
    (k : Nat) : Stuck (line + k) source (d.moveLine k) := by
  cases h with
  | unexpected hquote h => exact .unexpected hquote h
  | @openString cs h =>
    have hline : (↑(line + newlines cs) : Int) + k = ↑(line + k + newlines cs) := by omega
    rw [Diagnostic.moveLine_atText, hline]
    exact .openString h
  | openComment h => exact .openComment h
  | tooLong hp h => exact .tooLong hp h

/-! ### No token of a piece ends the text -/

theorem ne_endOfText_of_mem_marks : ∀ m ∈ marks, m.1 ≠ endOfText := by
  decide

theorem ofWord_mem (word : String) : ofWord word ∈ identifier :: keywords.map Prod.snd := by
  unfold ofWord
  cases h : keywords.lookup word with
  | none => exact List.mem_cons_self
  | some kind =>
    obtain ⟨front, back, hmem, -⟩ := List.lookup_eq_some_iff.mp h
    have hkind : (word, kind) ∈ keywords := by simp [hmem]
    exact List.mem_cons_of_mem _ (List.mem_map_of_mem (f := Prod.snd) hkind)

theorem kind?_ne_endOfText (p : Piece) : p.kind? ≠ some endOfText := by
  obtain ⟨form, text, spells⟩ := p
  cases spells with
  | mark h => simpa [kind?] using ne_endOfText_of_mem_marks _ h
  | @word c cs =>
    intro hkind
    have hmem := ofWord_mem (String.ofList (c :: cs))
    rw [Option.some.inj hkind] at hmem
    exact absurd hmem (by decide)
  | _ => simp [kind?]

theorem exists_of_mem_tokensFrom {line : Nat} {ps : List Piece} {t : Token}
    (h : t ∈ tokensFrom line ps) :
    ∃ p ∈ ps, p.kind? = some t.kind ∧ t.lexeme = String.ofList p.text := by
  induction ps generalizing line with
  | nil => cases h
  | cons p ps ih =>
    rcases List.mem_append.mp h with h | h
    · obtain ⟨kind, hkind, rfl⟩ : ∃ kind, p.kind? = some kind ∧
          (⟨kind, String.ofList p.text, p.literal, ↑(line + newlines p.text)⟩ : Token) = t := by
        simpa [token?] using h
      exact ⟨p, List.mem_cons_self, hkind, rfl⟩
    · obtain ⟨q, hq, hkind, hlexeme⟩ := ih h
      exact ⟨q, List.mem_cons_of_mem p hq, hkind, hlexeme⟩

theorem unended_tokensFrom (line : Nat) (ps : List Piece) : Unended (tokensFrom line ps) := by
  intro t ht hend
  obtain ⟨p, -, hkind, -⟩ := exists_of_mem_tokensFrom ht
  exact p.kind?_ne_endOfText (hkind.trans (congrArg some hend))

end Piece

open Piece

/-- A text that can be read and a line end in front of another text: the tokens of the one without
its end, and then what the other gives further down. -/
theorem tokenize_join {a : String} {tokens : List Token} (h : tokenize a = .ok tokens) :
    ∃ front final, tokens = front ++ [final] ∧ Unended front ∧ final.kind = endOfText ∧
      ∀ b, tokenize (a ++ "\n" ++ b) = match tokenize b with
        | .ok more => .ok (front ++ more.map (Token.moveLine ↑(1 + newlines a.toList)))
        | .error f => .error (f.moveLines ↑(1 + newlines a.toList)) := by
  rcases tokenize_cases a with ⟨ps, hps, htiles, hread, hok⟩ | ⟨_, _, _, -, -, -, -, herror⟩
  · obtain rfl : tokens = tokensFrom 1 ps ++ [endToken a.toList] :=
      Except.ok.inj (h.symm.trans hok)
    refine ⟨_, _, rfl, unended_tokensFrom 1 ps, rfl, fun b ↦ ?_⟩
    have hbreak : '\n' ∈ blanks := by decide
    have hjoined {qs : List Piece} {rest : List Char} (hqs : Tiles qs rest) :
        Tiles (ps ++ newline :: qs) rest := tiles_join htiles hqs hbreak fun _ _ _ ↦ rfl
    have hjoin (qs : List Piece) (rest : List Char) (hb : spell qs ++ rest = b.toList) :
        spell (ps ++ newline :: qs) ++ rest = (a ++ "\n" ++ b).toList := by
      simp [hps, ← hb, newline]
    have hlines (qs : List Piece) : newlines (spell (ps ++ newline :: qs)) =
        newlines (spell qs) + (1 + newlines a.toList) := by
      simp [hps, newline, newlines]
      omega
    have htokens (qs : List Piece) : tokensFrom 1 (ps ++ newline :: qs) =
        tokensFrom 1 ps ++ (tokensFrom 1 qs).map (Token.moveLine ↑(1 + newlines a.toList)) := by
      rw [tokensFrom_append, hps, ← tokensFrom_add, Nat.add_comm 1 (1 + newlines a.toList)]
      rfl
    rcases tokenize_cases b with ⟨qs, hqs, htilesb, hreadb, hokb⟩ |
      ⟨qs, rest, d, hqs, htilesb, hreadb, hstuck, herrorb⟩
    · have hsource := hjoin qs [] (by rw [List.append_nil, hqs])
      rw [List.append_nil] at hsource
      have hend : endToken (a ++ "\n" ++ b).toList =
          (endToken b.toList).moveLine ↑(1 + newlines a.toList) := by
        rw [endToken, endToken, ← hsource, hlines, hqs, ← Nat.add_assoc]
        rfl
      rw [hokb, tokenize_of_tiles hsource (hjoined htilesb) (readable_join hread hreadb hbreak),
        htokens, hend, List.append_assoc]
      simp
    · rw [herrorb]
      have hmoved := hstuck.add (1 + newlines a.toList)
      refine tokenize_of_stuck (hjoin qs rest hqs) (hjoined htilesb)
        (readable_join hread hreadb hbreak) ?_
      rw [hlines, ← Nat.add_assoc]
      exact hmoved
  · cases h.symm.trans herror

end LoxLang.Source
