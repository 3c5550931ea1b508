import LoxLang.Continuation
import LoxLang.Proofs.Lexing.Trimming
import Mathlib.Data.List.Infix

/-!
Parentheses counted over the characters of a line and over its tokens.

The count over the characters (`openDepth`) knows strings and line comments, but no block comments:
what stands in one is counted like any other text. Where the block comments of a line open no string
and no line comment for it (`InertComments`), their parentheses are counted together with those of
the tokens (`openDepth_inert`). Where they count for nothing at all (`Harmless`), both counts agree
(`isUnfinished_iff`).
-/

set_option autoImplicit false
set_option relaxedAutoImplicit false

namespace LoxLang

open Source Piece Token.Kind

/-- More parentheses are opened than closed. -/
def LeavesOpen (kinds : List Token.Kind) : Prop :=
  kinds.count rightParen < kinds.count leftParen

instance (kinds : List Token.Kind) : Decidable (LeavesOpen kinds) :=
  inferInstanceAs (Decidable (_ < _))

/-! ### Counting over texts -/

/-- Over a text without strings and line comments, all that matters is how many parentheses it has.
-/
theorem openDepth_append {text rest : List Char} {depth : Int} (hquote : '"' ∉ text)
    (hslashes : ¬ ['/', '/'] <:+: text)
    (hafter : text.getLast? = some '/' → rest.head? ≠ some '/') :
    openDepth depth false (text ++ rest) =
      openDepth (depth + text.count '(' - text.count ')') false rest := by
  induction text generalizing depth with
  | nil => simp
  | cons c cs ih =>
    obtain ⟨hc, hquote⟩ := not_or.mp (List.mem_cons.not.mp hquote)
    have hnext : ¬ (c = '/' ∧ (cs ++ rest).head? = some '/') := by
      rintro ⟨rfl, hhead⟩
      cases cs with
      | nil => exact hafter rfl hhead
      | cons d ds =>
        obtain rfl : d = '/' := by simpa using hhead
        exact hslashes ⟨[], ds, rfl⟩
    have hslashes : ¬ ['/', '/'] <:+: cs := fun h ↦ hslashes (List.infix_cons h)
    have hafter : cs.getLast? = some '/' → rest.head? ≠ some '/' := by
      cases cs with
      | nil => simp
      | cons d ds => simpa using hafter
    have ih (depth : Int) := @ih depth hquote hslashes hafter
    rw [List.cons_append, openDepth, if_neg (Ne.symm hc), if_neg (by simp)]
    rw [if_neg (by simpa using hnext)]
    by_cases hopen : c = '('
    · rw [if_pos hopen, ih]
      subst hopen
      congr 1
      simp
      omega
    · rw [if_neg hopen]
      by_cases hclose : c = ')'
      · rw [if_pos hclose, ih]
        subst hclose
        congr 1
        simp
        omega
      · rw [if_neg hclose, ih, List.count_cons_of_ne hopen, List.count_cons_of_ne hclose]

/-- A string is passed over. -/
theorem openDepth_string {body rest : List Char} {depth : Int} (h : '"' ∉ body) :
    openDepth depth false ('"' :: body ++ ['"'] ++ rest) = openDepth depth false rest := by
  have hinside : openDepth depth true (body ++ '"' :: rest) = openDepth depth false rest := by
    induction body with
    | nil => simp [openDepth]
    | cons c cs ih =>
      obtain ⟨hc, hcs⟩ := not_or.mp (List.mem_cons.not.mp h)
      rw [List.cons_append, openDepth, if_neg (Ne.symm hc), if_pos rfl, ih hcs]
  rw [List.append_assoc, List.singleton_append, List.cons_append, openDepth, if_pos rfl]
  exact hinside

/-! ### Counting over pieces -/

namespace Source.Piece

/-- The kinds of the tokens among the pieces. -/
def kinds (ps : List Piece) : List Token.Kind :=
  ps.filterMap kind?

@[simp] theorem kinds_nil : kinds [] = [] := rfl

@[simp] theorem kinds_cons (p : Piece) (ps : List Piece) :
    kinds (p :: ps) = p.kind?.toList ++ kinds ps := by
  cases h : p.kind? <;> simp [kinds, h]

theorem kinds_filter_isToken (ps : List Piece) : kinds (ps.filter isToken) = kinds ps := by
  induction ps with
  | nil => rfl
  | cons p ps ih =>
    cases h : p.kind? <;> simp [isToken, h, ih]

theorem map_kind_of_gives {ps : List Piece} {ts : List Token} (h : List.Forall₂ Gives ps ts) :
    ts.map Token.kind = kinds ps := by
  induction h with
  | nil => rfl
  | cons hp _ ih => simp [hp.kind, ih]

/-- A text in front of `rest` that opens no string and no line comment: it has no quotation mark and
no two slashes, and none with the slash at its end. -/
structure Inert (text rest : List Char) : Prop where
  quote : '"' ∉ text
  slashes : ¬ ['/', '/'] <:+: text
  after : rest.head? ≠ some '/'

/-- A text in front of `rest` that counts for nothing: the parentheses in it are balanced as well. -/
structure Uncounted (text rest : List Char) : Prop extends Inert text rest where
  balanced : text.count '(' = text.count ')'

instance (text rest : List Char) : Decidable (Inert text rest) :=
  decidable_of_iff ('"' ∉ text ∧ ¬ ['/', '/'] <:+: text ∧ rest.head? ≠ some '/')
    ⟨fun ⟨hquote, hslashes, hafter⟩ ↦ ⟨hquote, hslashes, hafter⟩,
      fun h ↦ ⟨h.quote, h.slashes, h.after⟩⟩

instance (text rest : List Char) : Decidable (Uncounted text rest) :=
  decidable_of_iff (Inert text rest ∧ text.count '(' = text.count ')')
    ⟨fun ⟨hinert, hbalanced⟩ ↦ ⟨hinert, hbalanced⟩, fun h ↦ ⟨h.toInert, h.balanced⟩⟩

/-- The block comments of a row open no string and no line comment. -/
def InertComments : List Piece → Prop
  | [] => True
  | p :: ps => (p.form = .blockComment → Inert p.text (spell ps)) ∧ InertComments ps

/-- The text of the block comments of a row. -/
def commentText (ps : List Piece) : List Char :=
  spell (ps.filter (·.form = .blockComment))

theorem commentText_cons_of_blockComment {p : Piece} (ps : List Piece)
    (h : p.form = .blockComment) : commentText (p :: ps) = p.text ++ commentText ps := by
  simp [commentText, h]

theorem commentText_cons_of_ne {p : Piece} (ps : List Piece) (h : p.form ≠ .blockComment) :
    commentText (p :: ps) = commentText ps := by
  simp [commentText, h]

/-- The block comments of a row count for nothing. -/
def Harmless : List Piece → Prop
  | [] => True
  | p :: ps => (p.form = .blockComment → Uncounted p.text (spell ps)) ∧ Harmless ps

instance decidableHarmless : (ps : List Piece) → Decidable (Harmless ps)
  | [] => inferInstanceAs (Decidable True)
  | p :: ps =>
    have := decidableHarmless ps
    inferInstanceAs (Decidable ((p.form = .blockComment → Uncounted p.text (spell ps)) ∧ _))

theorem marks_countable : ∀ m ∈ marks, '"' ∉ m.2 ∧ ¬ ['/', '/'] <:+: m.2 ∧
    (m.2.getLast? = some '/' → m.1 = slash) ∧ m.2.count '(' = [m.1].count leftParen ∧
    m.2.count ')' = [m.1].count rightParen := by
  decide

/-- Digits, letters, points and blanks. -/
def Uneventful (c : Char) : Prop :=
  c ∉ ['"', '/', '(', ')']

theorem openDepth_uneventful {text rest : List Char} {depth : Int} (h : ∀ c ∈ text, Uneventful c) :
    openDepth depth false (text ++ rest) = openDepth depth false rest := by
  have hnot {c : Char} (hc : ¬ Uneventful c) : c ∉ text := fun hmem ↦ hc (h c hmem)
  have hslash : '/' ∉ text := hnot (by simp [Uneventful])
  rw [openDepth_append (hnot (by simp [Uneventful])) ?_ ?_,
    List.count_eq_zero.mpr (hnot (by simp [Uneventful])),
    List.count_eq_zero.mpr (hnot (by simp [Uneventful]))]
  · simp
  · exact fun hslashes ↦ hslash (hslashes.mem List.mem_cons_self)
  · exact fun hlast ↦ absurd (List.mem_of_getLast? hlast) hslash

theorem uneventful_of_isAlphaNumeric {c : Char} (h : isAlphaNumeric c = true) : Uneventful c := by
  have hsubset : ['"', '/', '(', ')'] ⊆ operators ++ '/' :: '"' :: blanks := by decide
  intro hmem
  have hplain := isAlphaNumeric_of_mem c (hsubset hmem)
  exact absurd h (by simp [hplain])

theorem uneventful_of_mem_blanks : ∀ c ∈ blanks, Uneventful c := by
  simp [blanks, Uneventful]

/-- A piece that is no comment counts for its token. -/
theorem openDepth_piece {p : Piece} {rest : List Char} {depth : Int} (hends : p.form.Ends rest)
    (hline : p.form ≠ .lineComment) (hblock : p.form ≠ .blockComment) :
    openDepth depth false (p.text ++ rest) =
      openDepth (depth + p.kind?.toList.count leftParen - p.kind?.toList.count rightParen) false
        rest := by
  obtain ⟨form, text, spells⟩ := p
  have hdigits {ds : List Char} (h : ∀ c ∈ ds, isDigit c = true) : ∀ c ∈ ds, Uneventful c :=
    fun c hc ↦ uneventful_of_isAlphaNumeric (by simp [isAlphaNumeric, h c hc])
  cases spells with
  | @mark kind text h =>
    obtain ⟨hquote, hslashes, hlast, hopen, hclose⟩ := marks_countable _ h
    have hafter : text.getLast? = some '/' → rest.head? ≠ some '/' :=
      fun htext ↦ (hends.2 (hlast htext)).1
    rw [openDepth_append hquote hslashes hafter, hopen, hclose]
    rfl
  | string h => simpa [kind?] using openDepth_string h
  | integer hne h => simpa [kind?] using openDepth_uneventful (hdigits h)
  | @fraction whole part hwhole hpart hw hp =>
    have htext : ∀ c ∈ whole ++ '.' :: part, Uneventful c := by
      refine List.forall_mem_append.mpr ⟨hdigits hw, List.forall_mem_cons.mpr ⟨?_, hdigits hp⟩⟩
      simp [Uneventful]
    simpa [kind?] using openDepth_uneventful htext
  | @word c cs hc hcs =>
    have htext : ∀ x ∈ c :: cs, Uneventful x :=
      List.forall_mem_cons.mpr ⟨uneventful_of_isAlphaNumeric (by simp [isAlphaNumeric, hc]),
        fun x hx ↦ uneventful_of_isAlphaNumeric (hcs x hx)⟩
    have hword {k : Token.Kind} (hk : k ∉ identifier :: keywords.map Prod.snd) :
        [ofWord (String.ofList (c :: cs))].count k = 0 := by
      refine List.count_eq_zero.mpr fun hmem ↦ hk ?_
      rw [List.mem_singleton.mp hmem]
      exact ofWord_mem _
    show openDepth depth false (c :: cs ++ rest) = openDepth (depth +
      [ofWord (String.ofList (c :: cs))].count leftParen -
        [ofWord (String.ofList (c :: cs))].count rightParen) false rest
    rw [openDepth_uneventful htext, hword (by decide), hword (by decide)]
    simp
  | @blank c h =>
    have htext : ∀ x ∈ [c], Uneventful x := by simpa using uneventful_of_mem_blanks c h
    simpa [kind?] using openDepth_uneventful htext
  | lineComment h => exact absurd rfl hline
  | blockComment h => exact absurd rfl hblock

/-- A line comment is the last piece of its line. -/
theorem eq_nil_of_lineComment {p : Piece} {ps : List Piece} (hp : p.form = .lineComment)
    (hends : p.form.Ends (spell ps)) (hline : '\n' ∉ spell ps) : ps = [] := by
  have hlast : spell ps = [] := by
    cases hps : spell ps with
    | nil => rfl
    | cons c cs =>
      rw [hp, hps] at hends
      obtain rfl := hends c rfl
      exact absurd hline (by simp [hps])
  have hlength := length_le_length_spell ps
  rw [hlast] at hlength
  exact List.length_eq_zero_iff.mp (Nat.le_zero.mp hlength)

/-- On one line the parentheses of the tokens count, and those in block comments that open no string
and no line comment. -/
theorem openDepth_inert {ps : List Piece} {depth : Int} (htiles : Tiles ps [])
    (hline : '\n' ∉ spell ps) (h : InertComments ps) : openDepth depth false (spell ps) =
      depth + ((kinds ps).count leftParen + (commentText ps).count '(') -
        ((kinds ps).count rightParen + (commentText ps).count ')') := by
  induction ps generalizing depth with
  | nil => simp [openDepth, commentText]
  | cons p ps ih =>
    obtain ⟨hleads, htiles⟩ := htiles
    obtain ⟨hinert, h⟩ := h
    rw [List.append_nil, leads_iff_ends] at hleads
    have hrest : '\n' ∉ spell ps := fun hmem ↦ hline (by simp [hmem])
    by_cases hcomment : p.form = .lineComment
    · obtain rfl := eq_nil_of_lineComment hcomment hleads hrest
      obtain ⟨body, htext, -⟩ := exists_body_of_lineComment hcomment
      simp [kind?, htext, hcomment, openDepth, commentText]
    · by_cases hblock : p.form = .blockComment
      · obtain ⟨hquote, hslashes, hafter⟩ := hinert hblock
        have hkind : p.kind? = none := by simp [kind?, hblock]
        rw [spell_cons, openDepth_append hquote hslashes fun _ ↦ hafter, ih htiles hrest h,
          kinds_cons, hkind, commentText_cons_of_blockComment ps hblock, List.count_append,
          List.count_append]
        simp
        omega
      · rw [spell_cons, openDepth_piece hleads hcomment hblock, ih htiles hrest h, kinds_cons,
          List.count_append, List.count_append, commentText_cons_of_ne ps hblock]
        omega

theorem Harmless.inertComments {ps : List Piece} (h : Harmless ps) : InertComments ps := by
  induction ps with
  | nil => exact trivial
  | cons p ps ih => exact ⟨fun hp ↦ (h.1 hp).toInert, ih h.2⟩

theorem Harmless.balanced {ps : List Piece} (h : Harmless ps) :
    (commentText ps).count '(' = (commentText ps).count ')' := by
  induction ps with
  | nil => rfl
  | cons p ps ih =>
    by_cases hblock : p.form = .blockComment
    · rw [commentText_cons_of_blockComment ps hblock, List.count_append, List.count_append,
        (h.1 hblock).balanced, ih h.2]
    · rw [commentText_cons_of_ne ps hblock, ih h.2]

/-- On one line both counts agree. -/
theorem openDepth_spell {ps : List Piece} {depth : Int} (htiles : Tiles ps [])
    (hline : '\n' ∉ spell ps) (h : Harmless ps) : openDepth depth false (spell ps) =
      depth + (kinds ps).count leftParen - (kinds ps).count rightParen := by
  rw [openDepth_inert htiles hline h.inertComments, h.balanced]
  omega

/-! ### Rows whose block comments count for nothing -/

theorem Uncounted.of_head? {text rest rest' : List Char} (h : Uncounted text rest)
    (hrest : rest'.head? = some '/' → rest.head? = some '/') : Uncounted text rest' :=
  { h with after := fun hhead ↦ h.after (hrest hhead) }

theorem Harmless.of_append {ps qs : List Piece} (h : Harmless (ps ++ qs)) :
    Harmless ps ∧ Harmless qs := by
  induction ps with
  | nil => exact ⟨trivial, h⟩
  | cons p ps ih =>
    obtain ⟨hblock, h⟩ := h
    obtain ⟨hps, hqs⟩ := ih h
    refine ⟨⟨fun hp ↦ (hblock hp).of_head? fun hhead ↦ ?_, hps⟩, hqs⟩
    show (spell (ps ++ qs)).head? = some '/'
    rw [spell_append, List.head?_append, hhead]
    rfl

theorem Harmless.join {ps qs : List Piece} (hps : Harmless ps) (hqs : Harmless qs) {c : Char}
    (hc : c ∈ blanks) : Harmless (ps ++ ofBlank hc :: qs) := by
  have hslash : '/' ∉ blanks := by decide
  induction ps with
  | nil => exact ⟨fun h ↦ (by cases h), hqs⟩
  | cons p ps ih =>
    obtain ⟨hblock, hps⟩ := hps
    refine ⟨fun hp ↦ (hblock hp).of_head? fun hhead ↦ ?_, ih hps⟩
    change (spell (ps ++ ofBlank hc :: qs)).head? = some '/' at hhead
    rw [spell_append] at hhead
    cases hrest : spell ps with
    | nil =>
      -- The blank comes right after the comment.
      rw [hrest] at hhead
      obtain rfl : c = '/' := by simpa [ofBlank] using hhead
      exact absurd hc hslash
    | cons d ds => simpa [hrest] using hhead

theorem Alike.head?_text {p q : Piece} (h : p.Alike q) : q.text.head? = p.text.head? := by
  rcases h with rfl | ⟨hp, hq⟩
  · rfl
  · have hslash {r : Piece} (hr : r.form = .lineComment) : r.text.head? = some '/' := by
      obtain ⟨body, htext, -⟩ := exists_body_of_lineComment hr
      rw [htext]
      rfl
    rw [hslash hp, hslash hq]

theorem head?_spell_of_alike {ps qs : List Piece} (h : List.Forall₂ Alike ps qs) :
    (spell qs).head? = (spell ps).head? := by
  cases h with
  | nil => rfl
  | @cons p q _ _ hp _ =>
    rw [spell_cons, spell_cons, List.head?_append_of_ne_nil _ q.spells.ne_nil,
      List.head?_append_of_ne_nil _ p.spells.ne_nil, hp.head?_text]

theorem Harmless.alike {ps qs : List Piece} (h : Harmless ps) (hlike : List.Forall₂ Alike ps qs) :
    Harmless qs := by
  induction hlike with
  | nil => exact trivial
  | @cons p q ps qs hp hps ih =>
    obtain ⟨hblock, h⟩ := h
    refine ⟨fun hq ↦ ?_, ih h⟩
    have hform : p.form = .blockComment := hp.form.symm.trans hq
    obtain rfl : p = q := hp.resolve_right fun hline ↦ by simp [hform] at hline
    refine (hblock hform).of_head? fun hhead ↦ ?_
    rwa [head?_spell_of_alike hps] at hhead

theorem Harmless.trims {ps qs : List Piece} (h : Harmless ps) (htrims : Trims ps qs) :
    Harmless qs := by
  obtain ⟨front, mid, back, rfl, -, hlike⟩ := htrims
  have hmid := h.of_append.2.of_append.1
  exact hmid.alike hlike

end Source.Piece

theorem isUnfinished_iff {line : String} {ps : List Piece} (hspell : spell ps = line.toList)
    (htiles : Tiles ps []) (hline : '\n' ∉ line.toList) (h : Harmless ps) :
    isUnfinished line = true ↔ LeavesOpen (kinds ps) := by
  unfold isUnfinished LeavesOpen
  rw [← hspell, openDepth_spell htiles (by rwa [hspell]) h, decide_eq_true_iff]
  omega

end LoxLang
