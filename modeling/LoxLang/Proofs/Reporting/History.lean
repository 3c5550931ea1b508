import LoxLang.Proofs.Reporting.Reports
import Mathlib.Data.List.Induction

/-!
What a reporter has written and knows, from the steps that were taken with it.

The files stand in the order of their first mention (`mentioned`). A report shows those of which the
last mention since the report before it pointed to a line that is not empty (`shown`), then the failure
once, and enters it once. Each step keeps a reporter in accord with its history (`Recounts.perform`),
and the first report of a fatal reporter differs from others only in that it ends the program
(`recounts_performAll`).
-/

set_option autoImplicit false
set_option relaxedAutoImplicit false

namespace LoxLang

namespace Reporter

/-! ### Steps -/

/-- What is done with a reporter: a file is mentioned, a line of it is pointed to or withdrawn, a subject
is reported, or a block of work is left, by a signal or not. -/
inductive Step (Code : Type)
  | mention (path : String)
  | pointTo (path : String) (line : SourceLine)
  | withdraw (path : String)
  | throw (subject : Subject) (isMishap : Bool)
  | leave (signal : Option (Signal Code))

variable {Code : Type}

namespace Step

def perform (r : Reporter) : Step Code → Verdict Code × Reporter
  | mention path => (.settled, r.mention path)
  | pointTo path line => (.settled, r.pointTo path line)
  | withdraw path => (.settled, r.mention path)
  | throw subject isMishap => r.conclude subject isMishap
  | leave none => (.settled, r)
  | leave (some signal) => r.settle signal

/-- The file that a step is about. -/
def path? : Step Code → Option String
  | mention path | pointTo path _ | withdraw path => some path
  | throw .. | leave _ => none

/-- The line to which a step points. -/
def line? : Step Code → Option SourceLine
  | pointTo _ line => some line
  | _ => none

/-- What a step reports, and whether as a mishap. -/
def report? : Step Code → Option (String × Bool)
  | throw subject isMishap => some (subject.text, isMishap)
  | leave (some (.failure f)) => some (f.entry, f.isMishap)
  | _ => none

/-- The reporter when a step reports: that a failure is about to be reported is noted. -/
def announce (r : Reporter) : Step Code → Reporter
  | leave (some (.failure f)) => r.note f.notice
  | _ => r

/-- The code with which the report of a step ends the program, if reports are to end it. -/
def exit? : Step Code → Option Nat
  | throw _ true => some mishapExit
  | throw (.diagnostic d) false => some d.exitCode
  | leave (some (.failure f)) => some f.exitCode
  | _ => none

end Step

/-- The reporter after steps in turn. -/
def performAll (r : Reporter) (steps : List (Step Code)) : Reporter :=
  steps.foldl (fun r s ↦ (s.perform r).2) r

/-! ### Histories -/

/-- The files in the order of their first mention. -/
def mentioned (steps : List (Step Code)) : List String :=
  (steps.filterMap Step.path?).eraseDups

/-- The steps since the last report, last first. -/
def recent (steps : List (Step Code)) : List (Step Code) :=
  steps.reverse.takeWhile fun s ↦ s.report?.isNone

/-- The line to which the last recent step about a file points. -/
def pointed? (steps : List (Step Code)) (path : String) : Option SourceLine :=
  ((recent steps).find? fun s ↦ s.path? = some path).bind Step.line?

/-- The files and lines that a report shows. -/
def shown (steps : List (Step Code)) : List (String × SourceLine) :=
  (mentioned steps).filterMap fun path ↦
    ((pointed? steps path).filter fun line ↦ line.text ≠ "").map fun line ↦ (path, line)

/-- What a report writes that comes after the steps `steps`. -/
def reportAfter (steps : List (Step Code)) (text : String) (isMishap : Bool) : String :=
  String.join ((shown steps).map fun entry ↦
      "  File '" ++ entry.1 ++ "', line " ++ toString entry.2.number ++ ":\n" ++
        "    " ++ entry.2.text ++ "\n") ++
    (if isMishap then "[internal] " else "") ++ "error: " ++ text ++ "\n"

/-- What a step writes that comes after the steps `steps`. -/
def Step.writes (steps : List (Step Code)) : Step Code → List String
  | throw subject isMishap => [reportAfter steps subject.text isMishap]
  | leave (some (.failure f)) => [reportAfter steps f.entry f.isMishap]
  | leave (some .interrupt) => ["keyboard interrupt\n"]
  | _ => []

/-- What the steps `later` write that come after the steps `steps`. -/
def writings (steps : List (Step Code)) : List (Step Code) → List String
  | [] => []
  | s :: later => s.writes steps ++ writings (steps ++ [s]) later

/-- What the steps report. -/
def reports (steps : List (Step Code)) : List String :=
  (steps.filterMap Step.report?).map Prod.fst

section

variable (steps : List (Step Code)) (s : Step Code)

theorem performAll_append (r : Reporter) :
    performAll r (steps ++ [s]) = (s.perform (performAll r steps)).2 := by
  simp [performAll, List.foldl_append]

theorem eraseDups_append_singleton (paths : List String) (path : String) :
    (paths ++ [path]).eraseDups =
      if path ∈ paths then paths.eraseDups else paths.eraseDups ++ [path] := by
  rw [List.eraseDups_append]
  by_cases h : path ∈ paths <;> simp [h, List.removeAll, List.eraseDups_cons]

theorem mentioned_append : mentioned (steps ++ [s]) =
    match s.path? with
    | none => mentioned steps
    | some path =>
      if path ∈ mentioned steps then mentioned steps else mentioned steps ++ [path] := by
  unfold mentioned
  cases hpath : s.path? with
  | none => simp [List.filterMap_append, hpath]
  | some path =>
    simp only [List.filterMap_append, List.filterMap_cons, List.filterMap_nil, hpath,
      eraseDups_append_singleton, List.mem_eraseDups]

theorem nodup_mentioned : (mentioned steps).Nodup := by
  induction steps using List.reverseRecOn with
  | nil => exact List.nodup_nil
  | append_singleton steps s ih =>
    rw [mentioned_append]
    cases s.path? with
    | none => exact ih
    | some path =>
      dsimp only
      split
      · exact ih
      · next h =>
        refine List.nodup_append.mpr ⟨ih, List.pairwise_singleton _ path, ?_⟩
        rintro p hp q hq rfl
        exact h (List.mem_singleton.mp hq ▸ hp)

theorem recent_append : recent (steps ++ [s]) =
    if s.report?.isNone then s :: recent steps else [] := by
  simp [recent, List.takeWhile_cons]

/-- A report forgets all lines; another step sets the line of the file that it is about. -/
theorem pointed?_append (path : String) : pointed? (steps ++ [s]) path =
    if s.report?.isSome then none
    else if s.path? = some path then s.line? else pointed? steps path := by
  unfold pointed?
  rw [recent_append]
  cases s.report? with
  | some report => rfl
  | none =>
    by_cases h : s.path? = some path
    · simp [h]
    · simp [h]

theorem writings_append (earlier : List (Step Code)) :
    writings earlier (steps ++ [s]) = writings earlier steps ++ s.writes (earlier ++ steps) := by
  induction steps generalizing earlier with
  | nil => simp [writings]
  | cons first steps ih => simp [writings, ih]

theorem reports_append : reports (steps ++ [s]) =
    reports steps ++ (s.report?.map Prod.fst).toList := by
  unfold reports
  cases h : s.report? <;> simp [h]

end

/-! ### What a step does -/

theorem texts_write (r : Reporter) (text : String) : (r.write text).texts = r.texts ++ [text] := by
  simp [texts, write, Entry.text?]

namespace Step

variable (r : Reporter) (s : Step Code)

/-- A step sets the line of the file that it is about, or reports, or reports nothing. -/
theorem perform_cases :
    (∃ path, s.path? = some path ∧ s.report? = none ∧ (∀ steps, s.writes steps = []) ∧
      (s.perform r).2 = r.setLine path s.line?) ∨
    (∃ text isMishap, s.path? = none ∧ s.report? = some (text, isMishap) ∧
      (∀ steps, s.writes steps = [reportAfter steps text isMishap]) ∧
      (s.perform r).2 = (s.announce r).report text isMishap) ∨
    (s.path? = none ∧ s.report? = none ∧ (∀ steps, s.writes steps = ["keyboard interrupt\n"]) ∧
      (s.perform r).2 = r.write (r.alert "keyboard interrupt" ++ "\n")) ∨
    (s.path? = none ∧ s.report? = none ∧ (∀ steps, s.writes steps = []) ∧
      (s.perform r).2 = r) := by
  cases s with
  | mention path | pointTo path _ | withdraw path =>
    exact .inl ⟨path, rfl, rfl, fun _ ↦ rfl, rfl⟩
  | throw subject isMishap =>
    exact .inr (.inl ⟨subject.text, isMishap, rfl, rfl, fun _ ↦ rfl, rfl⟩)
  | leave signal =>
    rcases signal with _ | f | _ | code
    · exact .inr (.inr (.inr ⟨rfl, rfl, fun _ ↦ rfl, rfl⟩))
    · have hafter : (r.settle (.failure f) : Verdict Code × Reporter).2 =
          (r.note f.notice).report f.entry f.isMishap := by
        rw [settle_failure]
      exact .inr (.inl ⟨f.entry, f.isMishap, rfl, rfl, fun _ ↦ rfl, hafter⟩)
    · exact .inr (.inr (.inl ⟨rfl, rfl, fun _ ↦ rfl, rfl⟩))
    · exact .inr (.inr (.inr ⟨rfl, rfl, fun _ ↦ rfl, rfl⟩))

/-- To announce a report is at most to write a notice. -/
theorem announce_cases : s.announce r = r ∨ ∃ n, s.announce r = r.note n := by
  rcases s with _ | _ | _ | _ | _ | f | _ | _
  case leave.some.failure => exact .inr ⟨f.notice, rfl⟩
  all_goals exact .inl rfl

@[simp] theorem fatal_announce : (s.announce r).fatal = r.fatal := by
  rcases s.announce_cases r with h | ⟨n, h⟩ <;> simp [h]

@[simp] theorem style_announce : (s.announce r).style = r.style := by
  rcases s.announce_cases r with h | ⟨n, h⟩ <;> simp [h]

@[simp] theorem traceback_announce : (s.announce r).traceback = r.traceback := by
  rcases s.announce_cases r with h | ⟨n, h⟩ <;> simp [h]

@[simp] theorem reported_announce : (s.announce r).reported = r.reported := by
  rcases s.announce_cases r with h | ⟨n, h⟩ <;> simp [h]

@[simp] theorem texts_announce : (s.announce r).texts = r.texts := by
  rcases s.announce_cases r with h | ⟨n, h⟩ <;> simp [h]

theorem fatal_perform : (s.perform r).2.fatal = r.fatal := by
  rcases s.perform_cases r with ⟨path, -, -, -, h⟩ | ⟨text, isMishap, -, -, -, h⟩ |
    ⟨-, -, -, h⟩ | ⟨-, -, -, h⟩ <;> simp [h, setLine, write]

theorem style_perform : (s.perform r).2.style = r.style := by
  rcases s.perform_cases r with ⟨path, -, -, -, h⟩ | ⟨text, isMishap, -, -, -, h⟩ |
    ⟨-, -, -, h⟩ | ⟨-, -, -, h⟩
  · rw [h]
    rfl
  · rw [h, style_report, style_announce]
  · rw [h]
    rfl
  · rw [h]

end Step

theorem fatal_performAll (r : Reporter) (steps : List (Step Code)) :
    (performAll r steps).fatal = r.fatal := by
  induction steps generalizing r with
  | nil => rfl
  | cons s steps ih => exact (ih (s.perform r).2).trans (s.fatal_perform r)

/-! ### Reporters and their histories -/

/-- Setting the line of a file in a table of files that are all different. -/
theorem place_map {paths : List String} (lineOf : String → Option SourceLine) (path : String)
    (line : Option SourceLine) (h : paths.Nodup) :
    place path line (paths.map fun p ↦ (p, lineOf p)) =
      (if path ∈ paths then paths else paths ++ [path]).map
        fun p ↦ (p, if p = path then line else lineOf p) := by
  induction paths with
  | nil => simp [place]
  | cons p ps ih =>
    obtain ⟨hp, hps⟩ := List.nodup_cons.mp h
    rw [List.map_cons, place]
    by_cases heq : p = path
    · subst heq
      have hrest : ∀ q ∈ ps, (q, lineOf q) = (q, if q = p then line else lineOf q) := fun q hq ↦ by
        rw [if_neg (ne_of_mem_of_not_mem hq hp)]
      rw [if_pos rfl, if_pos List.mem_cons_self, List.map_cons, if_pos rfl,
        List.map_congr_left hrest]
    · rw [if_neg heq, ih hps]
      by_cases hmem : path ∈ ps
      · simp [hmem, heq]
      · simp [hmem, heq, Ne.symm heq]

/-- A reporter without colors is in accord with the steps that were taken with it. -/
structure Recounts (steps : List (Step Code)) (r : Reporter) : Prop where
  style : r.style = .plain
  traceback : r.traceback = (mentioned steps).map fun path ↦ (path, pointed? steps path)
  texts : r.texts = writings [] steps
  reported : r.reported.reverse = reports steps

namespace Recounts

variable {steps : List (Step Code)} {r : Reporter}

theorem new (fatal : Bool) (painter : Text.Painter) :
    Recounts ([] : List (Step Code)) (.new fatal false painter) :=
  ⟨rfl, rfl, rfl, rfl⟩

theorem reportText_eq (h : Recounts steps r) (text : String) (isMishap : Bool) :
    r.reportText text isMishap = reportAfter steps text isMishap := by
  have hstyle : ∀ color attributes shown, r.style color attributes shown = shown := by
    intro color attributes shown
    rw [h.style, Text.Painter.plain]
  have hlines : String.join (r.traceback.map r.sourceText) =
      String.join ((shown steps).map fun entry ↦
        "  File '" ++ entry.1 ++ "', line " ++ toString entry.2.number ++ ":\n" ++
          "    " ++ entry.2.text ++ "\n") := by
    rw [h.traceback, shown]
    induction mentioned steps with
    | nil => rfl
    | cons path paths ih =>
      rw [List.map_cons, List.map_cons, String.join_cons, ih, List.filterMap_cons]
      cases hline : pointed? steps path with
      | none => simp [sourceText]
      | some line =>
        by_cases hempty : line.text = ""
        · simp [sourceText, hempty, Option.filter]
        · simp [sourceText, hempty, hstyle, Option.filter, String.join_cons]
  unfold reportText reportAfter
  rw [hlines]
  simp only [alert, hstyle]

theorem announce (h : Recounts steps r) (s : Step Code) : Recounts steps (s.announce r) where
  style := (s.style_announce r).trans h.style
  traceback := (s.traceback_announce r).trans h.traceback
  texts := (s.texts_announce r).trans h.texts
  reported := (congrArg List.reverse (s.reported_announce r)).trans h.reported

variable (s : Step Code)

theorem texts_perform (h : Recounts steps r) :
    (s.perform r).2.texts = r.texts ++ s.writes steps := by
  rcases s.perform_cases r with ⟨path, -, -, hwrites, hafter⟩ |
    ⟨text, isMishap, -, -, hwrites, hafter⟩ | ⟨-, -, hwrites, hafter⟩ | ⟨-, -, hwrites, hafter⟩
  · rw [hafter, hwrites, List.append_nil]
    rfl
  · rw [hafter, hwrites, texts_report, (h.announce s).reportText_eq, Step.texts_announce]
  · rw [hafter, hwrites, texts_write, alert, h.style]
    rfl
  · rw [hafter, hwrites, List.append_nil]

theorem reported_perform (h : Recounts steps r) :
    (s.perform r).2.reported.reverse = reports (steps ++ [s]) := by
  rw [reports_append, ← h.reported]
  rcases s.perform_cases r with ⟨path, -, hreport, -, hafter⟩ |
    ⟨text, isMishap, -, hreport, -, hafter⟩ | ⟨-, hreport, -, hafter⟩ | ⟨-, hreport, -, hafter⟩
  · rw [hafter, hreport]
    exact (List.append_nil _).symm
  · rw [hafter, hreport, reported_report, List.reverse_cons, Step.reported_announce]
    rfl
  · rw [hafter, hreport]
    exact (List.append_nil _).symm
  · rw [hafter, hreport]
    exact (List.append_nil _).symm

/-- A report forgets the lines of a reporter that goes on. -/
theorem traceback_perform (h : Recounts steps r) (hlast : r.fatal = false ∨ s.report? = none) :
    (s.perform r).2.traceback =
      (mentioned (steps ++ [s])).map fun path ↦ (path, pointed? (steps ++ [s]) path) := by
  rcases s.perform_cases r with ⟨path, hpath, hreport, -, hafter⟩ |
    ⟨text, isMishap, hpath, hreport, -, hafter⟩ | ⟨hpath, hreport, -, hafter⟩ |
    ⟨hpath, hreport, -, hafter⟩
  · rw [hafter, setLine, h.traceback, place_map _ _ _ (nodup_mentioned steps), mentioned_append,
      hpath]
    refine List.map_congr_left fun p _ ↦ ?_
    rw [pointed?_append, hreport, hpath]
    by_cases hp : p = path
    · simp [hp]
    · simp [hp, Ne.symm hp]
  · have hfatal : (s.announce r).fatal = false := by
      rw [Step.fatal_announce]
      exact hlast.resolve_right (by rw [hreport]; exact Option.some_ne_none _)
    rw [hafter, traceback_report _ _ _ hfatal, Step.traceback_announce]
    simp [h.traceback, mentioned_append, pointed?_append, hpath, hreport]
  · rw [hafter]
    show r.traceback = _
    simp [h.traceback, mentioned_append, pointed?_append, hpath, hreport]
  · rw [hafter]
    simp [h.traceback, mentioned_append, pointed?_append, hpath, hreport]

theorem perform (h : Recounts steps r) (hlast : r.fatal = false ∨ s.report? = none) :
    Recounts (steps ++ [s]) (s.perform r).2 where
  style := (s.style_perform r).trans h.style
  traceback := h.traceback_perform s hlast
  texts := by
    rw [h.texts_perform, h.texts, writings_append, List.nil_append]
  reported := h.reported_perform s

end Recounts

/-- A reporter that has not ended the program is in accord with its history. -/
theorem recounts_performAll {fatal : Bool} {painter : Text.Painter} {steps : List (Step Code)}
    (h : fatal = false ∨ ∀ s ∈ steps, s.report? = none) :
    Recounts steps (performAll (.new fatal false painter) steps) := by
  induction steps using List.reverseRecOn with
  | nil => exact .new fatal painter
  | append_singleton steps s ih =>
    have hearlier : fatal = false ∨ ∀ s ∈ steps, s.report? = none :=
      h.imp_right fun h s hs ↦ h s (List.mem_append_left _ hs)
    have hlast : fatal = false ∨ s.report? = none :=
      h.imp_right fun h ↦ h s (by simp)
    rw [performAll_append]
    refine (ih hearlier).perform s ?_
    rwa [fatal_performAll]

section

variable {s : Step Code} {steps : List (Step Code)} {text : String} {isMishap : Bool}

/-- A step that reports is about no file, and writes its report. -/
theorem path?_and_writes_of_report? (h : s.report? = some (text, isMishap)) :
    s.path? = none ∧ s.writes steps = [reportAfter steps text isMishap] := by
  rcases s with _ | _ | _ | _ | _ | f | _ | _
  case throw | leave.some.failure =>
    cases h
    exact ⟨rfl, rfl⟩
  all_goals cases h

theorem verdict_of_exit? {r : Reporter} {code : Nat} (hfatal : r.fatal = true)
    (h : s.exit? = some code) : (s.perform r).1 = .ends code := by
  cases s with
  | mention | pointTo | withdraw => cases h
  | throw subject isMishap =>
    show (r.conclude subject isMishap).1 = .ends code
    cases isMishap with
    | true =>
      obtain rfl : mishapExit = code := Option.some.inj h
      simp [conclude, hfatal]
    | false =>
      cases subject with
      | diagnostic d =>
        obtain rfl : d.exitCode = code := Option.some.inj h
        simp [conclude, hfatal]
      | other => cases h
  | leave signal =>
    rcases signal with _ | f | _ | _
    · cases h
    · obtain rfl : f.exitCode = code := Option.some.inj h
      show (r.settle (.failure f)).1 = .ends f.exitCode
      rw [settle_failure, if_pos hfatal]
    · cases h
    · cases h

end

/-- Whatever is done with a reporter that goes on after reports, it knows the files in the order of
their first mention, each report shows the lines that were pointed to last since the report before and
then forgets them, and each report is written and entered once. Where reports end the program, the
first one writes the same and is entered too. -/
theorem performAll_history (painter : Text.Painter) (steps : List (Step Code)) :
    let r := performAll (.new false false painter) steps
    (r.traceback = (mentioned steps).map fun path ↦ (path, pointed? steps path)) ∧
    r.texts = writings [] steps ∧
    r.reported.reverse = reports steps ∧
    (∀ (s : Step Code) text isMishap, s.report? = some (text, isMishap) →
      let after := performAll (.new false false painter) (steps ++ [s])
      after.traceback = (mentioned steps).map (fun path ↦ (path, none)) ∧
      after.texts = r.texts ++ [reportAfter steps text isMishap] ∧
      after.reported = text :: r.reported) ∧
    ∀ (s : Step Code) text isMishap code, (∀ earlier ∈ steps, earlier.report? = none) →
      s.report? = some (text, isMishap) → s.exit? = some code →
      ∃ after, s.perform (performAll (.new true false painter) steps) = (.ends code, after) ∧
        after.texts = (performAll (.new false false painter) (steps ++ [s])).texts ∧
        after.reported = [text] := by
  have hall : ∀ steps : List (Step Code),
      Recounts steps (performAll (.new false false painter) steps) :=
    fun _ ↦ recounts_performAll (.inl rfl)
  refine ⟨(hall steps).traceback, (hall steps).texts, (hall steps).reported, ?_, ?_⟩
  · intro s text isMishap hreport
    dsimp only
    have hafter := hall (steps ++ [s])
    obtain ⟨hpath, hwrites⟩ : s.path? = none ∧ s.writes steps = _ :=
      path?_and_writes_of_report? hreport
    refine ⟨?_, ?_, ?_⟩
    · rw [hafter.traceback]
      simp [mentioned_append, pointed?_append, hpath, hreport]
    · rw [hafter.texts, (hall steps).texts, writings_append, List.nil_append,
        hwrites]
    · refine List.reverse_inj.mp ?_
      rw [hafter.reported, List.reverse_cons, (hall steps).reported, reports_append, hreport]
      rfl
  · intro s text isMishap code hearlier hreport hexit
    have hfatal : (performAll (.new true false painter) steps).fatal = true := fatal_performAll _ steps
    have hbefore : Recounts steps (performAll (.new true false painter) steps) :=
      recounts_performAll (.inr hearlier)
    refine ⟨_, Prod.ext (verdict_of_exit? hfatal hexit) rfl, ?_, ?_⟩
    · rw [(hall (steps ++ [s])).texts, hbefore.texts_perform, hbefore.texts, writings_append,
        List.nil_append]
    · have hnone : steps.filterMap Step.report? = [] := List.filterMap_eq_nil_iff.mpr hearlier
      refine List.reverse_inj.mp ?_
      rw [hbefore.reported_perform, reports_append, hreport, reports, hnone]
      rfl

/-- The second line of a file is shown, the line of a file that was withdrawn is not. -/
theorem performAll_history_of_lines :
    let painter := Text.Painter.plain
    let steps : List (Step Nat) := [.mention "a", .pointTo "a" ⟨"x = ;", 1⟩, .pointTo "b" ⟨"b;", 7⟩,
      .pointTo "a" ⟨"print x;", 2⟩, .withdraw "b"]
    let s : Step Nat := .throw (.diagnostic (.atText (.lexical .malformedNumber) 2 "1x")) false
    let shown := "  File 'a', line 2:\n    print x;\nerror: [line 2] Error '1x': Malformed number.\n"
    (performAll (.new false false painter) (steps ++ [s])).texts = [shown] ∧
    ∃ after, s.perform (performAll (.new true false painter) steps) = (.ends 65, after) ∧
      after.texts = [shown] := by
  intro painter steps s shown
  have hreport : s.report? = some ("[line 2] Error '1x': Malformed number.", false) := by
    decide +kernel
  obtain ⟨-, htexts, -, hnext, hfatal⟩ := performAll_history painter steps
  obtain ⟨-, hwritten, -⟩ := hnext s _ _ hreport
  obtain ⟨after, hperform, hsame, -⟩ := hfatal s _ _ 65 (by decide) hreport rfl
  have hshown : reportAfter steps "[line 2] Error '1x': Malformed number." false = shown := by
    decide +kernel
  rw [htexts, hshown] at hwritten
  exact ⟨hwritten, after, hperform, hsame.trans hwritten⟩

end Reporter

end LoxLang
