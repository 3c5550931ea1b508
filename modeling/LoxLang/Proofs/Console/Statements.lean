import LoxLang.Proofs.Console.Feeding
import LoxLang.Proofs.Console.Parentheses

/-!
Lines of source text as statements.

Lines make up a statement if together they are finished and up to each earlier line they are not
(`IsStatement`). Source lines fall into statements and the lines of a statement that is still
unfinished, in one way (`Falls.unique`), and one more line either belongs to that statement or
finishes it (`Falls.keep`, `Falls.close`).
-/

set_option autoImplicit false
set_option relaxedAutoImplicit false

namespace LoxLang

open Text

/-! ### Text that is stripped already -/

theorem strip_strip (text : String) : strip (strip text) = strip text := by
  have hidem (xs : List Char) : trim isBlank (trim isBlank xs) = trim isBlank xs := by
    let kept := (xs.dropWhile isBlank).rdropWhile isBlank
    have hfront : kept.dropWhile isBlank = kept := by
      cases hkept : kept with
      | nil => rfl
      | cons c cs =>
        have hbegins : kept <+: xs.dropWhile isBlank := List.rdropWhile_prefix isBlank _
        rw [hkept] at hbegins
        obtain ⟨more, hmore⟩ := hbegins
        have hhead := List.head?_dropWhile_not isBlank xs
        rw [← hmore] at hhead
        exact List.dropWhile_cons_of_neg (by simpa using hhead)
    show (kept.dropWhile isBlank).rdropWhile isBlank = kept
    rw [hfront]
    exact List.rdropWhile_idempotent isBlank _
  unfold strip
  rw [String.toList_ofList, hidem]

theorem joinLine_of_strip_eq {text : String} (h : strip text = text) :
    joinLine "" text = (text, isUnfinished text) := by
  rw [joinLine_empty, h]

namespace Console

/-! ### Joined lines -/

/-- The text of lines that are joined to one. -/
def joined (lines : List String) : String :=
  lines.foldl (fun text line ↦ (joinLine text (strip line)).1) ""

theorem joined_concat (lines : List String) (line : String) :
    joined (lines ++ [line]) = (joinLine (joined lines) (strip line)).1 := by
  unfold joined
  rw [List.foldl_append]
  rfl

theorem joined_singleton (line : String) : joined [line] = strip line := by
  have hline := joined_concat [] line
  rw [List.nil_append] at hline
  rw [hline]
  exact strip_strip line

theorem strip_joined (lines : List String) : strip (joined lines) = joined lines := by
  rcases List.eq_nil_or_concat' lines with rfl | ⟨front, line, rfl⟩
  · rfl
  · rw [joined_concat]
    exact strip_strip _

/-- Up to each of the lines a parenthesis is left open. -/
def Begins (lines : List String) : Prop :=
  ∀ front, front <+: lines → front ≠ [] → isUnfinished (joined front) = true

theorem begins_nil : Begins [] :=
  fun _ hfront hne ↦ absurd (List.prefix_nil.mp hfront) hne

theorem Begins.concat {lines : List String} {line : String} (h : Begins lines)
    (hopen : isUnfinished (joined (lines ++ [line])) = true) : Begins (lines ++ [line]) := by
  intro front hfront hne
  rcases List.prefix_concat_iff.mp hfront with rfl | hfront
  · exact hopen
  · exact h front hfront hne

theorem Begins.joined_eq_empty_iff {lines : List String} (h : Begins lines) :
    joined lines = "" ↔ lines = [] := by
  refine ⟨fun hempty ↦ ?_, fun hnil ↦ by rw [hnil]; rfl⟩
  by_contra hne
  have hopen := h lines (List.prefix_refl _) hne
  rw [hempty] at hopen
  exact absurd hopen (by decide)

/-! ### Statements -/

/-- The lines of source text among typed lines. -/
def sourceLines (lines : List String) : List String :=
  lines.filter (IsSource ·)

theorem sourceLines_nil : sourceLines [] = [] := rfl

theorem sourceLines_append (lines lines' : List String) :
    sourceLines (lines ++ lines') = sourceLines lines ++ sourceLines lines' :=
  List.filter_append _ _

theorem sourceLines_cons_of_isSource {line : String} (h : IsSource line) (lines : List String) :
    sourceLines (line :: lines) = line :: sourceLines lines :=
  List.filter_cons_of_pos (by simpa using h)

theorem sourceLines_cons_of_not_isSource {line : String} (h : ¬ IsSource line)
    (lines : List String) : sourceLines (line :: lines) = sourceLines lines :=
  List.filter_cons_of_neg (by simpa using h)

/-- Lines that are finished together, and unfinished up to each line before the last one. -/
structure IsStatement (lines : List String) : Prop where
  ne_nil : lines ≠ []
  begins : Begins lines.dropLast
  finished : isUnfinished (joined lines) = false

theorem IsStatement.not_begins {s rest : List String} (h : IsStatement s) (hrest : Begins rest) :
    ¬ s <+: rest := by
  intro hs
  have hopen := hrest s hs h.ne_nil
  rw [h.finished] at hopen
  cases hopen

/-- No statement begins another one. -/
theorem IsStatement.eq_of_begins {s s' : List String} (h : IsStatement s) (h' : IsStatement s')
    (hs : s <+: s') : s = s' := by
  rw [← List.dropLast_concat_getLast h'.ne_nil, List.prefix_concat_iff,
    List.dropLast_concat_getLast h'.ne_nil] at hs
  exact hs.resolve_right (h.not_begins h'.begins)

/-- The lines are those of the statements `done` and of one that `rest` only begins. -/
structure Falls (lines : List String) (done : List (List String)) (rest : List String) : Prop where
  lines_eq : lines = done.flatten ++ rest
  statements : ∀ s ∈ done, IsStatement s
  begins : Begins rest

theorem falls_nil : Falls [] [] [] :=
  ⟨rfl, by simp, begins_nil⟩

/-- Lines that leave no parenthesis open are statements by themselves. -/
theorem falls_singletons {lines : List String}
    (h : ∀ line ∈ lines, isUnfinished line = false) : Falls lines (lines.map ([·])) [] where
  lines_eq := by
    rw [List.append_nil, ← List.flatMap_def]
    exact (List.flatMap_singleton' lines).symm
  statements := by
    intro s hs
    obtain ⟨line, hline, rfl⟩ := List.mem_map.mp hs
    refine ⟨List.cons_ne_nil line [], begins_nil, ?_⟩
    rw [joined_singleton, isUnfinished_strip]
    exact h line hline
  begins := begins_nil

namespace Falls

variable {lines rest : List String} {done : List (List String)} {line : String}

theorem keep (h : Falls lines done rest) (hopen : isUnfinished (joined (rest ++ [line])) = true) :
    Falls (lines ++ [line]) done (rest ++ [line]) where
  lines_eq := by rw [h.lines_eq, List.append_assoc]
  statements := h.statements
  begins := h.begins.concat hopen

theorem close (h : Falls lines done rest)
    (hclosed : isUnfinished (joined (rest ++ [line])) = false) :
    Falls (lines ++ [line]) (done ++ [rest ++ [line]]) [] where
  lines_eq := by rw [h.lines_eq, List.flatten_concat, List.append_nil, List.append_assoc]
  statements := by
    have hlast : IsStatement (rest ++ [line]) :=
      ⟨by simp, by rw [List.dropLast_concat]; exact h.begins, hclosed⟩
    exact List.forall_mem_append.mpr ⟨h.statements, by simpa using hlast⟩
  begins := begins_nil

/-- Whatever lines follow, they go on with the statements. -/
theorem exists_more (h : Falls lines done rest) (more : List String) :
    ∃ done' rest', Falls (lines ++ more) (done ++ done') rest' := by
  induction more generalizing lines done rest with
  | nil => exact ⟨[], rest, by rwa [List.append_nil, List.append_nil]⟩
  | cons line more ih =>
    cases hopen : isUnfinished (joined (rest ++ [line])) with
    | true =>
      obtain ⟨done', rest', hfalls⟩ := ih (h.keep hopen)
      exact ⟨done', rest', by rwa [List.append_assoc] at hfalls⟩
    | false =>
      obtain ⟨done', rest', hfalls⟩ := ih (h.close hopen)
      exact ⟨(rest ++ [line]) :: done', rest', by
        rwa [List.append_assoc, List.append_assoc] at hfalls⟩

theorem length_eq (h : Falls lines done rest) :
    lines.length = done.flatten.length + rest.length := by
  rw [h.lines_eq, List.length_append]

theorem prefix_of_cons {s : List String} (h : Falls lines (s :: done) rest) : s <+: lines := by
  rw [h.lines_eq, List.flatten_cons, List.append_assoc]
  exact List.prefix_append _ _

/-- Lines fall into statements in one way only. -/
theorem unique {rest' : List String} {done' : List (List String)} (h : Falls lines done rest)
    (h' : Falls lines done' rest') : done = done' ∧ rest = rest' := by
  induction done generalizing lines done' with
  | nil =>
    obtain rfl : lines = rest := h.lines_eq
    cases done' with
    | nil => exact ⟨rfl, h'.lines_eq⟩
    | cons s' done' =>
      exact absurd h'.prefix_of_cons ((h'.statements s' (by simp)).not_begins h.begins)
  | cons s done ih =>
    obtain ⟨hs, hdone⟩ := List.forall_mem_cons.mp h.statements
    cases done' with
    | nil =>
      obtain rfl : lines = rest' := h'.lines_eq
      exact absurd h.prefix_of_cons (hs.not_begins h'.begins)
    | cons s' done' =>
      obtain ⟨hs', hdone'⟩ := List.forall_mem_cons.mp h'.statements
      obtain rfl : s = s' :=
        (List.prefix_or_prefix_of_prefix h.prefix_of_cons h'.prefix_of_cons).elim
          (hs.eq_of_begins hs') fun hp ↦ (hs'.eq_of_begins hs hp).symm
      have hrest : done.flatten ++ rest = done'.flatten ++ rest' := by
        have hlines := h.lines_eq.symm.trans h'.lines_eq
        rw [List.flatten_cons, List.flatten_cons, List.append_assoc, List.append_assoc] at hlines
        exact List.append_cancel_left hlines
      obtain ⟨rfl, rfl⟩ := ih ⟨rfl, hdone, h.begins⟩ ⟨hrest, hdone', h'.begins⟩
      exact ⟨rfl, rfl⟩

end Falls

end Console

end LoxLang
