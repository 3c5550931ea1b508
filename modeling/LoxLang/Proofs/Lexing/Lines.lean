import LoxLang.Proofs.Lexing.Spacing

/-!
Lines of tokens and of lexical diagnostics.

Lines are numbered from one and separated by line ends. A token stands on the line on which it ends,
and a diagnostic on the line on which its text begins, or on the last line where a string is not
closed (`tokenize_lines`). The lexer counts the line ends of one piece after another, and that comes
to the line ends of all the text before (`forall₂_bears`).
-/

set_option autoImplicit false
set_option relaxedAutoImplicit false

namespace LoxLang.Source

open Token.Kind

namespace Piece

/-- A piece of a text and all that stands before it. -/
structure Placed where
  before : List Char
  piece : Piece

/-- The pieces of a row, of which the first stands behind the given text. -/
def placesFrom (before : List Char) : List Piece → List Placed
  | [] => []
  | p :: ps => ⟨before, p⟩ :: placesFrom (before ++ p.text) ps

/-- The number of the line that a text goes on with after `before`. -/
def lineAfter (before : List Char) : Nat :=
  1 + newlines before

/-- The token is that of the piece and stands on the line on which the piece ends. -/
structure Placed.Bears (q : Placed) (t : Token) : Prop where
  gives : q.piece.Gives t
  line : t.line = lineAfter (q.before ++ q.piece.text)

theorem lineAfter_append (before text : List Char) :
    lineAfter (before ++ text) = lineAfter before + newlines text := by
  simp [lineAfter, Nat.add_assoc]

theorem token?_of_none {p : Piece} (h : p.kind? = none) (line : Nat) : p.token? line = none := by
  rw [token?, h, Option.map_none]

theorem token?_of_some {p : Piece} {kind : Token.Kind} (h : p.kind? = some kind) (line : Nat) :
    p.token? line = some ⟨kind, String.ofList p.text, p.literal, line⟩ := by
  rw [token?, h, Option.map_some]

/-- The tokens of a row stand where its pieces end. -/
theorem forall₂_bears (before : List Char) (ps : List Piece) :
    List.Forall₂ Placed.Bears ((placesFrom before ps).filter (·.piece.isToken))
      (tokensFrom (lineAfter before) ps) := by
  induction ps generalizing before with
  | nil => exact .nil
  | cons p ps ih =>
    rw [placesFrom, tokensFrom, ← lineAfter_append]
    cases hkind : p.kind? with
    | none =>
      rw [List.filter_cons_of_neg (by simp [isToken, hkind]), token?_of_none hkind]
      exact ih _
    | some kind =>
      rw [List.filter_cons_of_pos (by simp [isToken, hkind]), token?_of_some hkind]
      exact .cons ⟨⟨hkind, rfl, rfl⟩, rfl⟩ (ih _)

/-! ### Lines in order -/

theorem bounds_of_mem_tokensFrom {line : Nat} {ps : List Piece} {t : Token}
    (h : t ∈ tokensFrom line ps) :
    (line : Int) ≤ t.line ∧ t.line ≤ ↑(line + newlines (spell ps)) := by
  induction ps generalizing line with
  | nil => cases h
  | cons p ps ih =>
    rw [spell_cons, newlines_append]
    rcases List.mem_append.mp h with h | h
    · obtain ⟨kind, -, rfl⟩ : ∃ kind, p.kind? = some kind ∧
          (⟨kind, String.ofList p.text, p.literal, ↑(line + newlines p.text)⟩ : Token) = t := by
        simpa [token?] using h
      constructor <;> dsimp only <;> omega
    · have hbounds := ih h
      constructor <;> omega

/-- Lines never decrease from token to token. -/
theorem pairwise_line_tokensFrom (line : Nat) (ps : List Piece) :
    (tokensFrom line ps).Pairwise fun t t' ↦ t.line ≤ t'.line := by
  induction ps generalizing line with
  | nil => exact .nil
  | cons p ps ih =>
    rw [tokensFrom]
    cases hkind : p.kind? with
    | none =>
      rw [token?_of_none hkind]
      exact ih _
    | some kind =>
      rw [token?_of_some hkind]
      exact .cons (fun t ht ↦ (bounds_of_mem_tokensFrom ht).1) (ih _)

/-- A text that is stuck is so on a line of its own. -/
theorem Stuck.bounds {line : Nat} {source : List Char} {d : Diagnostic} (h : Stuck line source d) :
    (line : Int) ≤ d.line ∧ d.line ≤ ↑(line + newlines source) := by
  cases h with
  | unexpected | openComment | tooLong =>
    refine ⟨Int.le_refl _, ?_⟩
    show (line : Int) ≤ _
    omega
  | @openString cs h =>
    have hcons : newlines ('"' :: cs) = newlines cs := List.count_cons_of_ne (by decide)
    show (line : Int) ≤ ↑(line + newlines cs) ∧ ((line + newlines cs : Nat) : Int) ≤ _
    rw [hcons]
    omega

end Piece

open Piece

/-- `d` is what is wrong with `rest`, which stands behind `before`. What is at fault begins `rest`,
and its first line is reported. Only a string that is not closed is reported on the last line of
all. -/
inductive FaultAt (before : List Char) : List Char → Diagnostic → Prop
  | unexpectedCharacter {c : Char} {cs : List Char} {d : Diagnostic}
    (hcause : d.cause = .lexical .unexpectedCharacter) (hline : d.line = lineAfter before)
    (hlexeme : d.lexeme = some (String.singleton c)) : FaultAt before (c :: cs) d
  | malformedNumber {digits cs : List Char} {d : Diagnostic}
    (hcause : d.cause = .lexical .malformedNumber) (hline : d.line = lineAfter before)
    (hdigits : ∀ c ∈ digits, isDigit c = true)
    (hlexeme : d.lexeme = some (String.ofList digits)) : FaultAt before (digits ++ cs) d
  | unterminatedComment {cs : List Char} {d : Diagnostic}
    (hcause : d.cause = .lexical .unterminatedComment) (hline : d.line = lineAfter before)
    (hopen : ¬ ['*', '/'] <:+: cs) : FaultAt before ('/' :: '*' :: cs) d
  | unterminatedString {cs : List Char} {d : Diagnostic}
    (hcause : d.cause = .lexical .unterminatedString)
    (hline : d.line = lineAfter (before ++ '"' :: cs)) (hopen : '"' ∉ cs) :
    FaultAt before ('"' :: cs) d

theorem Piece.Stuck.faultAt {before rest : List Char} {d : Diagnostic}
    (h : Stuck (lineAfter before) rest d) : FaultAt before rest d := by
  cases h with
  | @unexpected c cs hquote h =>
    refine .unexpectedCharacter rfl rfl ?_
    exact if_neg (by simp)
  | openString h =>
    refine .unterminatedString rfl ?_ h
    rw [lineAfter_append]
    rfl
  | openComment h => exact .unterminatedComment rfl rfl h
  | @tooLong p cs hp h =>
    obtain ⟨form, text, spells⟩ := p
    obtain ⟨rfl, -⟩ : form = .integer ∧ ¬ text.length ≤ Decimal.digitLimit := by
      simpa [Piece.Readable] using h
    cases spells with
    | integer hne hdigits =>
      refine .malformedNumber rfl rfl hdigits (if_neg ?_)
      simpa [String.ofList_eq_empty_iff] using hne

/-- The lines of a text that can be read and of one that cannot. The tokens of the one are those of
its longest pieces, each on the line on which its piece ends, and the end of the text is on its last
line; lines never decrease from token to token. In the other, a row of longest pieces ends where the
fault is, on the line of `FaultAt`. -/
theorem tokenize_lines (source : String) :
    (∀ tokens, tokenize source = .ok tokens → ∃ ps front, ∃ final : Token,
      spell ps = source.toList ∧ Tiles ps [] ∧ tokens = front ++ [final] ∧
      List.Forall₂ Placed.Bears ((placesFrom [] ps).filter (·.piece.isToken)) front ∧
      final.kind = endOfText ∧ final.line = lineAfter source.toList ∧
      tokens.Pairwise fun t t' ↦ t.line ≤ t'.line) ∧
    ∀ failure, tokenize source = .error failure → ∃ ps rest d,
      spell ps ++ rest = source.toList ∧ Tiles ps rest ∧ failure = .diagnostic d ∧
      FaultAt (spell ps) rest d := by
  constructor
  · intro tokens htokens
    rcases tokenize_cases source with ⟨ps, hsource, htiles, -, hok⟩ | ⟨_, _, _, -, -, -, -, herror⟩
    · obtain rfl := Except.ok.inj (htokens.symm.trans hok)
      refine ⟨ps, _, _, hsource, htiles, rfl, forall₂_bears [] ps, rfl, rfl, ?_⟩
      refine List.pairwise_append.mpr ⟨pairwise_line_tokensFrom 1 ps, List.pairwise_singleton _ _, ?_⟩
      intro t ht t' ht'
      obtain rfl := List.mem_singleton.mp ht'
      rw [← hsource]
      exact (bounds_of_mem_tokensFrom ht).2
    · cases htokens.symm.trans herror
  · intro failure hfailure
    rcases tokenize_cases source with ⟨_, -, -, -, hok⟩ |
      ⟨ps, rest, d, hsource, htiles, -, hstuck, herror⟩
    · cases hok.symm.trans hfailure
    · exact ⟨ps, rest, d, hsource, htiles, Except.error.inj (hfailure.symm.trans herror),
        hstuck.faultAt⟩

end LoxLang.Source
