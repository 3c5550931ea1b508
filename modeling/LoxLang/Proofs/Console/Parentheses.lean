import LoxLang.Proofs.Console.Counting
import LoxLang.Proofs.Lexing.Uniqueness

/-!
Which lines are continued.

White space at the ends of a line does not change what the line leaves open (`isUnfinished_strip`).
So a line is continued as its tokens tell, as long as its block comments count for nothing
(`joinLine_unfinished_iff`); the parentheses in a block comment, however, count like those of tokens
(`joinLine_block_comment`).
-/

set_option autoImplicit false
set_option relaxedAutoImplicit false

namespace LoxLang

open Source Piece Text Token.Kind

/-! ### White space at the ends of a line -/

/-- White space opens and closes nothing, in strings and outside of them. -/
theorem openDepth_cons_of_isBlank {c : Char} (h : isBlank c = true) (cs : List Char) (depth : Int)
    (inString : Bool) : openDepth depth inString (c :: cs) = openDepth depth inString cs := by
  have hne {d : Char} (hd : isBlank d = false) : c ≠ d := by
    rintro rfl
    simp [h] at hd
  simp [openDepth, hne (d := '"') (by decide), hne (d := '/') (by decide),
    hne (d := '(') (by decide), hne (d := ')') (by decide)]

theorem openDepth_of_isBlank {text : List Char} (h : ∀ c ∈ text, isBlank c = true) (depth : Int)
    (inString : Bool) : openDepth depth inString text = depth := by
  induction text with
  | nil => rfl
  | cons c cs ih =>
    obtain ⟨hc, hcs⟩ := List.forall_mem_cons.mp h
    rw [openDepth_cons_of_isBlank hc, ih hcs]

theorem openDepth_dropWhile_isBlank (text : List Char) (depth : Int) (inString : Bool) :
    openDepth depth inString (text.dropWhile isBlank) = openDepth depth inString text := by
  induction text with
  | nil => rfl
  | cons c cs ih =>
    by_cases hc : isBlank c = true
    · rw [List.dropWhile_cons_of_pos hc, ih, openDepth_cons_of_isBlank hc]
    · rw [List.dropWhile_cons_of_neg hc]

theorem openDepth_append_of_isBlank {blanks : List Char} (h : ∀ c ∈ blanks, isBlank c = true)
    (text : List Char) (depth : Int) (inString : Bool) :
    openDepth depth inString (text ++ blanks) = openDepth depth inString text := by
  induction text generalizing depth inString with
  | nil => exact openDepth_of_isBlank h depth inString
  | cons c cs ih =>
    -- The next character is the same, or there is a blank in place of none.
    have hnext : (cs ++ blanks).head? = some '/' ↔ cs.head? = some '/' := by
      cases cs with
      | nil =>
        refine iff_of_false (fun hhead ↦ ?_) (by simp)
        have hslash : isBlank '/' = false := by decide
        rw [h '/' (List.mem_of_mem_head? hhead)] at hslash
        cases hslash
      | cons d ds => rfl
    simp only [List.cons_append, openDepth, hnext, ih]

theorem isUnfinished_strip (line : String) : isUnfinished (strip line) = isUnfinished line := by
  let text := line.toList.dropWhile isBlank
  have hback : text.rdropWhile isBlank ++ text.rtakeWhile isBlank = text :=
    List.rdropWhile_append_rtakeWhile
  have hblank : ∀ c ∈ text.rtakeWhile isBlank, isBlank c = true :=
    fun _ hc ↦ List.mem_rtakeWhile_imp hc
  have hstrip : (strip line).toList = text.rdropWhile isBlank := String.toList_ofList
  unfold isUnfinished
  rw [hstrip, ← openDepth_append_of_isBlank hblank, hback, openDepth_dropWhile_isBlank]

/-! ### A line on its own -/

theorem joinLine_empty (line : String) :
    joinLine "" line = (strip line, isUnfinished line) := by
  rw [← isUnfinished_strip]
  rfl

theorem kinds_of_tiles {line : String} {ps : List Piece} (hspell : spell ps = line.toList)
    (htiles : Tiles ps []) (hread : ∀ p ∈ ps, p.Readable) :
    ∃ tokens, tokenize line = .ok tokens ∧ tokens.map Token.kind = kinds ps ++ [endOfText] := by
  refine ⟨_, tokenize_of_tiles hspell htiles hread, ?_⟩
  rw [List.map_append, map_kind_of_gives (forall₂_gives 1 ps), kinds_filter_isToken]
  rfl

/-- A line is kept without the white space around it. Where its block comments open no string and no
line comment, it is continued if and only if its tokens and its block comments together open more
parentheses than they close. So where they count for nothing, it is continued if and only if its
tokens leave a parenthesis open. -/
theorem joinLine_unfinished_iff {line : String} {tokens : List Token} (hline : '\n' ∉ line.toList)
    (htokens : tokenize line = .ok tokens) :
    (joinLine "" line).1 = strip line ∧ (∃ ps, spell ps = line.toList ∧ Tiles ps []) ∧
      ∀ ps, spell ps = line.toList → Tiles ps [] →
        (InertComments ps → ((joinLine "" line).2 = true ↔
          (tokens.map Token.kind).count rightParen + (commentText ps).count ')' <
            (tokens.map Token.kind).count leftParen + (commentText ps).count '(')) ∧
        (Harmless ps → ((joinLine "" line).2 = true ↔ LeavesOpen (tokens.map Token.kind))) := by
  rw [joinLine_empty]
  rcases tokenize_cases line with ⟨ps, hspell, htiles, hread, -⟩ | ⟨_, _, _, -, -, -, -, herror⟩
  · refine ⟨rfl, ⟨ps, hspell, htiles⟩, fun qs hqs hqtiles ↦ ?_⟩
    obtain rfl : ps = qs := htiles.unique hqtiles (hspell.trans hqs.symm)
    obtain ⟨tokens', htokens', hkinds⟩ := kinds_of_tiles hspell htiles hread
    obtain rfl : tokens' = tokens := Except.ok.inj (htokens'.symm.trans htokens)
    have hcount (kind : Token.Kind) (hkind : kind ≠ endOfText) :
        (tokens'.map Token.kind).count kind = (kinds ps).count kind := by
      rw [hkinds, List.count_append, List.count_singleton, if_neg (by simpa using Ne.symm hkind)]
      rfl
    have hinert (h : InertComments ps) : isUnfinished line = true ↔
        (tokens'.map Token.kind).count rightParen + (commentText ps).count ')' <
          (tokens'.map Token.kind).count leftParen + (commentText ps).count '(' := by
      unfold isUnfinished
      rw [← hspell, openDepth_inert htiles (by rwa [hspell]) h, hcount _ (by decide),
        hcount _ (by decide), decide_eq_true_iff]
      omega
    refine ⟨hinert, fun h ↦ (hinert h.inertComments).trans ?_⟩
    rw [h.balanced]
    exact Nat.add_lt_add_iff_right
  · cases herror.symm.trans htokens

/-- A string and both kinds of comments with parentheses in them. -/
theorem joinLine_unfinished_iff_of_string :
    let line := "  print \"(\" + /* () */ (1 // )("
    let tokens : List Token := [⟨kwPrint, "print", .nil, 1⟩, ⟨string, "\"(\"", .string "(", 1⟩,
      ⟨plus, "+", .nil, 1⟩, ⟨leftParen, "(", .nil, 1⟩, ⟨number, "1", .integer 1, 1⟩,
      ⟨endOfText, "", .nil, 1⟩]
    '\n' ∉ line.toList ∧ tokenize line = .ok tokens ∧ (joinLine "" line).1 = strip line ∧
      (∃ ps, spell ps = line.toList ∧ Tiles ps []) ∧
      ∀ ps, spell ps = line.toList → Tiles ps [] →
        (InertComments ps → ((joinLine "" line).2 = true ↔
          (tokens.map Token.kind).count rightParen + (commentText ps).count ')' <
            (tokens.map Token.kind).count leftParen + (commentText ps).count '(')) ∧
        (Harmless ps → ((joinLine "" line).2 = true ↔ LeavesOpen (tokens.map Token.kind))) := by
  intro line tokens
  have hline : '\n' ∉ line.toList := by decide +kernel
  have htokens : tokenize line = .ok tokens := by decide +kernel
  exact ⟨hline, htokens, joinLine_unfinished_iff hline htokens⟩

/-- A parenthesis in a block comment is counted: one line is continued although its tokens leave no
parenthesis open, and one is not although they do. -/
theorem joinLine_block_comment :
    (∃ tokens, tokenize "print 1; /* ( */" = .ok tokens ∧ ¬ LeavesOpen (tokens.map Token.kind) ∧
        (joinLine "" "print 1; /* ( */").2 = true) ∧
      ∃ tokens, tokenize "print (1 /* ) */" = .ok tokens ∧ LeavesOpen (tokens.map Token.kind) ∧
        (joinLine "" "print (1 /* ) */").2 = false := by
  have hclosed : tokenize "print 1; /* ( */" = .ok [⟨kwPrint, "print", .nil, 1⟩,
      ⟨number, "1", .integer 1, 1⟩, ⟨semicolon, ";", .nil, 1⟩, ⟨endOfText, "", .nil, 1⟩] := by
    decide +kernel
  have hopen : tokenize "print (1 /* ) */" = .ok [⟨kwPrint, "print", .nil, 1⟩,
      ⟨leftParen, "(", .nil, 1⟩, ⟨number, "1", .integer 1, 1⟩, ⟨endOfText, "", .nil, 1⟩] := by
    decide +kernel
  exact ⟨⟨_, hclosed, by decide, by decide +kernel⟩, ⟨_, hopen, by decide, by decide +kernel⟩⟩

end LoxLang
