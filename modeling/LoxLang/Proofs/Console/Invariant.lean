import LoxLang.Proofs.Console.Statements
import LoxLang.Proofs.Reporting.Work

/-!
What holds of a console after every line.

The console counts lines of source text and knows on which of them the last statement began
(`Stands`). Its session does not end the program and knows no line at fault (`Ready`). Every kind of
line keeps both, also one whose run fails (`Holds.feed`), so they hold after any lines. A line whose
run fails leaves nothing pending, and its report shows its own statement (`handles_feed`).
-/

set_option autoImplicit false
set_option relaxedAutoImplicit false

namespace LoxLang

open Text

/-! ### Sessions of typed input -/

/-- A session of typed input between two lines. -/
structure Session.Ready (s : Session) : Prop where
  path : s.path = inputPath
  fatal : s.reporter.fatal = false
  lookup : s.reporter.traceback.lookup inputPath = some none

namespace Session

variable {s : Session} {m : Machine} {f : Failure} {source : String} {firstLine : Int}

theorem ready_begin (r : Reporter) (showsTree : Bool) :
    (begin r inputPath true showsTree "").Ready where
  path := rfl
  fatal := Bool.and_false _
  lookup := (Reporter.lookup_place _ _ _ _).trans (if_pos rfl)

theorem Ready.afterSuccess (h : s.Ready) : (s.afterSuccess m).Ready where
  path := h.path
  fatal := h.fatal
  lookup := by
    have hlookup : (s.afterSuccess m).reporter.traceback.lookup s.path = some none :=
      lookup_afterSuccess
    rwa [h.path] at hlookup

theorem Ready.settled_afterFailure (h : s.Ready) :
    ((s.afterFailure source firstLine f m).settled f).Ready where
  path := continues_afterFailure.path.trans h.path
  fatal := (Reporter.fatal_report _ _ _).trans (continues_afterFailure.fatal.trans h.fatal)
  lookup := by
    have hknown : (s.reporter.traceback.lookup s.path).isSome := by
      rw [h.path, h.lookup]
      rfl
    have hlookup : ((s.afterFailure source firstLine f m).settled f).reporter.traceback.lookup
        s.path = some none :=
      lookup_settled_afterFailure h.fatal hknown
    rwa [h.path] at hlookup

end Session

/-! ### Reported lines -/

/-- A report shows a line of the text that failed, under the number of this line. -/
theorem Failure.exists_line_of_lineAt? {f : Failure} {source : String} {start : Int}
    {shown : SourceLine} (h : f.lineAt? source start = some shown) :
    ∃ i row, (lines source)[i]? = some row ∧ shown = ⟨strip row, start + (i : Nat)⟩ := by
  cases f with
  | diagnostic d =>
    have hat : Session.lineAt? source start d = some shown := h
    unfold Session.lineAt? at hat
    split at hat
    · next hpos =>
      obtain ⟨row, hrow, rfl⟩ := Option.map_eq_some_iff.mp hat
      refine ⟨_, row, hrow, ?_⟩
      congr 1
      omega
    · cases hat
  | mishap e => cases h

namespace Console

/-! ### Lines and statements -/

/-- A console after source lines that fall into the statements `done` and the begun one `rest`. -/
structure Stands (primary : String) (lines : List String) (done : List (List String))
    (rest : List String) (c : Console) : Prop where
  falls : Falls lines done rest
  pending : c.pending = joined rest
  primaryPrompt : c.primaryPrompt = primary
  prompt : c.prompt = if rest = [] then primary else secondaryPrompt
  lineNumber : c.lineNumber = lines.length
  startLine : c.startLine = (if rest = [] then done.dropLast else done).flatten.length + 1

theorem stands_new (session : Session) (primary : String) :
    Stands primary [] [] [] (new session primary) :=
  ⟨falls_nil, rfl, rfl, rfl, rfl, rfl⟩

section

variable {primary line : String} {lines rest : List String} {done : List (List String)}
  {c : Console}

namespace Stands

theorem extended_eq (h : Stands primary lines done rest c) (line : String) :
    c.extended line = joined (rest ++ [line]) := by
  rw [extended, h.pending, joined_concat]

theorem pending_eq_empty_iff (h : Stands primary lines done rest c) :
    c.pending = "" ↔ rest = [] := by
  rw [h.pending, h.falls.begins.joined_eq_empty_iff]

theorem nextStart_eq (h : Stands primary lines done rest c) :
    c.nextStart = done.flatten.length + 1 := by
  unfold nextStart
  simp only [h.pending_eq_empty_iff, h.startLine, h.lineNumber, h.falls.length_eq]
  by_cases hnil : rest = []
  · simp [hnil]
  · simp [hnil]

/-- A line that leaves a parenthesis open belongs to the begun statement. -/
theorem keep (h : Stands primary lines done rest c)
    (hopen : isUnfinished (c.extended line) = true) :
    Stands primary (lines ++ [line]) done (rest ++ [line])
      (c.advance (c.extended line) secondaryPrompt) where
  falls := h.falls.keep (by rwa [h.extended_eq] at hopen)
  pending := h.extended_eq line
  primaryPrompt := h.primaryPrompt
  prompt := by simp [advance]
  lineNumber := by simp [advance, h.lineNumber]
  startLine := by simp [advance, h.nextStart_eq]

/-- A line that leaves none open ends it, whatever comes of its run. -/
theorem close (h : Stands primary lines done rest c)
    (hclosed : isUnfinished (c.extended line) = false) (session : Session) :
    Stands primary (lines ++ [line]) (done ++ [rest ++ [line]]) []
      { c.advance "" c.primaryPrompt with session } where
  falls := h.falls.close (by rwa [h.extended_eq] at hclosed)
  pending := rfl
  primaryPrompt := h.primaryPrompt
  prompt := h.primaryPrompt
  lineNumber := by simp [advance, h.lineNumber]
  startLine := by simp [advance, h.nextStart_eq]

end Stands

/-! ### What every line keeps -/

/-- What holds of a console that was made with the reporter `r`, after source lines. -/
structure Holds (r : Reporter) (primary : String) (lines : List String) (c : Console) : Prop where
  ready : c.session.Ready
  unmarked : r.Unmarked → c.session.reporter.Unmarked
  stands : ∃ done rest, Stands primary lines done rest c

theorem holds_new (r : Reporter) (showsTree : Bool) (primary : String) :
    Holds r primary [] (new (.begin r Session.inputPath true showsTree "") primary) where
  ready := Session.ready_begin r showsTree
  unmarked h := h.mention
  stands := ⟨[], [], stands_new _ _⟩

theorem Holds.feed {r : Reporter} (h : Holds r primary lines c) (line : String) :
    Holds r primary (lines ++ sourceLines [line]) (c.feed line).2 := by
  obtain ⟨hready, hunmarked, done, rest, hstands⟩ := h
  have hfeeds := feeds c line hready.fatal
  generalize c.feed line = reply at hfeeds ⊢
  cases hfeeds with
  | blank hblank =>
    have hline : ¬ IsSource line := fun hline ↦ hline.1 hblank
    rw [sourceLines_cons_of_not_isSource hline, sourceLines_nil, List.append_nil]
    exact ⟨hready, hunmarked, done, rest, hstands⟩
  | command hcommand =>
    have hline : ¬ IsSource line := fun hline ↦ by simp [hline.2] at hcommand
    rw [sourceLines_cons_of_not_isSource hline, sourceLines_nil, List.append_nil]
    exact ⟨hready, hunmarked, done, rest, hstands⟩
  | kept hline hopen =>
    rw [sourceLines_cons_of_isSource hline]
    exact ⟨hready, hunmarked, done, rest ++ [line], hstands.keep hopen⟩
  | completed hline hclosed hwork =>
    rw [sourceLines_cons_of_isSource hline]
    exact ⟨hready.afterSuccess, fun hr ↦ Session.unmarked_afterSuccess (hunmarked hr), _, [],
      hstands.close hclosed _⟩
  | failed hline hclosed hwork =>
    rw [sourceLines_cons_of_isSource hline]
    exact ⟨hready.settled_afterFailure, fun _ ↦ Session.unmarked_settled
      (Session.continues_afterFailure.fatal.trans hready.fatal), _, [], hstands.close hclosed _⟩

theorem holds_feedAll {r : Reporter} (h : Holds r primary [] c) (lines : List String) :
    Holds r primary (sourceLines lines) (c.feedAll lines).2 := by
  refine feedAll_induction (P := fun lines ↦ Holds r primary (sourceLines lines)) h ?_ lines
  intro lines c line hlines
  rw [sourceLines_append]
  exact hlines.feed line

end

/-! ### What a line brings about -/

/-- How a line is handled after the kept lines `rest` of a statement that began on line `start`. The
console was `c` before the line and is `c'` after it. -/
inductive Handles (c : Console) (start : Nat) (rest : List String) (line : String) (c' : Console) :
    Prop
  | passed (hline : ¬ IsSource line) (hsame : c' = c)
  | kept (hline : IsSource line) (hopen : isUnfinished (joined (rest ++ [line])) = true)
    (hpending : c'.pending = joined (rest ++ [line])) (hsame : c'.session = c.session)
  | completed {m : Machine} (hline : IsSource line)
    (hclosed : isUnfinished (joined (rest ++ [line])) = false)
    (hwork : (Session.work c.session.showsTree (joined (rest ++ [line]))).run c.session.machine =
      .ok () m)
    (hpending : c'.pending = "") (hcontinues : c.session.Continues c'.session m [] [])
  /-- Where no line from elsewhere is known, the one report shows the statement: all of it, or the line
  of it that is at fault. -/
  | failed {m : Machine} {f : Failure} (hline : IsSource line)
    (hclosed : isUnfinished (joined (rest ++ [line])) = false)
    (hwork : (Session.work c.session.showsTree (joined (rest ++ [line]))).run c.session.machine =
      .error f m)
    (hpending : c'.pending = "")
    (hcontinues : c.session.reporter.Unmarked → c.session.Continues c'.session m
      [f.report c.session.reporter.style Session.inputPath (joined (rest ++ [line])) start]
      [f.entry])
    (hshown : ∀ shown, f.lineAt? (joined (rest ++ [line])) start = some shown →
      ∃ i row, (Text.lines (joined (rest ++ [line])))[i]? = some row ∧
        shown = ⟨strip row, start + (i : Nat)⟩)
    (hwhole : f.isMishap = false → Text.IsLine (joined (rest ++ [line])) →
      f.lineAt? (joined (rest ++ [line])) start = some ⟨joined (rest ++ [line]), start⟩)

theorem Stands.continues_settled {primary : String} {lines rest : List String}
    {done : List (List String)} {c : Console} (h : Stands primary lines done rest c)
    (line : String) (hready : c.session.Ready) (hunmarked : c.session.reporter.Unmarked) (f : Failure)
    (m : Machine) :
    c.session.Continues ((c.session.afterFailure (c.extended line) c.nextStart f m).settled f) m
      [f.report c.session.reporter.style Session.inputPath (joined (rest ++ [line]))
        (done.flatten.length + 1 : Nat)] [f.entry] := by
  have hcontinues : c.session.Continues
      ((c.session.afterFailure (c.extended line) c.nextStart f m).settled f) m
      [f.report c.session.reporter.style c.session.path (c.extended line) c.nextStart]
      [f.entry] :=
    Session.continues_settled_afterFailure hunmarked
  have hreport : f.report c.session.reporter.style c.session.path (c.extended line)
      c.nextStart = f.report c.session.reporter.style Session.inputPath
        (joined (rest ++ [line])) (done.flatten.length + 1 : Nat) := by
    rw [hready.path, h.extended_eq, h.nextStart_eq]
  rwa [hreport] at hcontinues

theorem handles_feed {primary line : String} {lines rest : List String}
    {done : List (List String)} {c : Console} (h : Stands primary lines done rest c)
    (hready : c.session.Ready) :
    Handles c (done.flatten.length + 1) rest line (c.feed line).2 := by
  have hextended := h.extended_eq line
  have hfeeds := feeds c line hready.fatal
  generalize c.feed line = reply at hfeeds ⊢
  cases hfeeds with
  | blank hblank => exact .passed (fun hline ↦ hline.1 hblank) rfl
  | command hcommand => exact .passed (fun hline ↦ by simp [hline.2] at hcommand) rfl
  | kept hline hopen =>
    rw [hextended] at hopen
    exact .kept hline hopen hextended rfl
  | completed hline hclosed hwork =>
    rw [hextended] at hclosed hwork
    exact .completed hline hclosed hwork rfl (Session.continues_afterSuccess _ _)
  | @failed f m hline hclosed hwork =>
    rw [hextended] at hclosed hwork
    refine .failed hline hclosed hwork rfl
      (fun hunmarked ↦ h.continues_settled line hready hunmarked f m)
      (fun _ hshown ↦ Failure.exists_line_of_lineAt? hshown) fun hdiagnostic hwhole ↦ ?_
    cases f with
    | diagnostic d => exact lineAt?_of_work hwhole (strip_joined _) hwork
    | mishap e => cases hdiagnostic

/-- For every reporter with which a console of typed input is made, and after every line: the lines of
source text fall into statements and the lines of a statement that is only begun. These lines, joined,
are pending, and while they are the prompt is the secondary one. What is pending is stripped, and
unfinished on its own. The lines of source text are counted, and so are those before the last
statement. Failures are not fatal, and no line of typed input is known to be at fault, nor one from
elsewhere if none was known at first. So a line whose run fails leaves nothing pending, and all it
writes but notices is one report, which shows its own statement. -/
theorem invariant_feedAll (r : Reporter) (showsTree : Bool) (primary : String)
    (lines : List String) :
    let c := ((new (.begin r Session.inputPath true showsTree "") primary).feedAll lines).2
    ∃ done rest, Falls (sourceLines lines) done rest ∧
      c.pending = joined rest ∧
      c.prompt = (if c.pending = "" then primary else secondaryPrompt) ∧
      (c.pending ≠ "" → strip c.pending = c.pending ∧ joinLine "" c.pending = (c.pending, true)) ∧
      c.lineNumber = (sourceLines lines).length ∧
      c.startLine = (if c.pending = "" then done.dropLast else done).flatten.length + 1 ∧
      c.session.reporter.fatal = false ∧
      c.session.reporter.traceback.lookup Session.inputPath = some none ∧
      (r.Unmarked → c.session.reporter.Unmarked) ∧
      ∀ line, Handles c (done.flatten.length + 1) rest line (c.feed line).2 := by
  intro c
  obtain ⟨hready, hunmarked, done, rest, hstands⟩ :=
    holds_feedAll (holds_new r showsTree primary) lines
  have hstrip : strip c.pending = c.pending := by
    rw [hstands.pending, strip_joined]
  have hempty := hstands.pending_eq_empty_iff
  refine ⟨done, rest, hstands.falls, hstands.pending, ?_, fun hne ↦ ⟨hstrip, ?_⟩,
    hstands.lineNumber, ?_, hready.fatal, hready.lookup, hunmarked,
    fun line ↦ handles_feed hstands hready⟩
  · simp only [hempty, hstands.prompt, c]
  · have hopen := hstands.falls.begins rest (List.prefix_refl rest) (mt hempty.mpr hne)
    rw [joinLine_of_strip_eq hstrip, hstands.pending, hopen]
  · simp only [hempty, hstands.startLine, c]

end Console

end LoxLang
