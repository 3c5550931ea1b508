import LoxLang.Session

/-!
What the error stream says of failures.

A report shows the source lines that the reporter knows and then the failure. Apart from reports a
run writes nothing but notices, and settling its failure writes one report and enters it once. Where
no line is known before the run, the report shows its own line only
(`continues_settled_afterFailure`).
-/

set_option autoImplicit false
set_option relaxedAutoImplicit false

namespace LoxLang

/-! ### Texts and notices -/

/-- The text that a piece of the error stream is, unless it is a notice. -/
def Entry.text? : Entry → Option String
  | text s => some s
  | notice _ => none

/-- On the error stream stand the texts in their order, with notices between them. -/
def Writes (level : Nat) (err : String) (texts : List String) : Prop :=
  ∃ entries : List Entry, err = String.join (entries.map (Entry.render level)) ∧
    entries.filterMap Entry.text? = texts

theorem Notice.level_le_info (n : Notice) : n.level ≤ Notice.info := by
  cases n with
  | loading => exact Nat.le_refl _
  | _ => exact Nat.le_of_lt (Nat.lt_of_sub_eq_succ rfl)

theorem writes_nil (level : Nat) : Writes level "" [] :=
  ⟨[], rfl, rfl⟩

theorem Writes.append {level : Nat} {err err' : String} {texts texts' : List String}
    (h : Writes level err texts) (h' : Writes level err' texts') :
    Writes level (err ++ err') (texts ++ texts') := by
  obtain ⟨entries, rfl, rfl⟩ := h
  obtain ⟨entries', rfl, rfl⟩ := h'
  refine ⟨entries ++ entries', ?_, List.filterMap_append⟩
  rw [List.map_append, String.join_append]

/-- Where notices are not shown, there is nothing but the texts. -/
theorem Writes.eq_join {level : Nat} {err : String} {texts : List String}
    (h : Writes level err texts) (hlevel : Notice.info < level) : err = String.join texts := by
  obtain ⟨entries, rfl, rfl⟩ := h
  induction entries with
  | nil => rfl
  | cons e es ih =>
    cases e with
    | text s =>
      rw [List.map_cons, String.join_cons, ih, List.filterMap_cons_some (f := Entry.text?) rfl,
        String.join_cons, Entry.render]
    | notice n =>
      have hn : ¬ level ≤ n.level := fun h ↦ absurd n.level_le_info (by omega)
      rw [List.map_cons, String.join_cons, ih, List.filterMap_cons_none rfl, Entry.render, if_neg hn,
        String.empty_append]

/-! ### Failures -/

namespace Failure

/-- The text of a failure among those that were reported. -/
def entry : Failure → String
  | diagnostic d => d.message
  | mishap m => "unknown error: '" ++ m.summary ++ "'"

def isMishap : Failure → Bool
  | diagnostic _ => false
  | mishap _ => true

/-- The code with which a failure ends the program. -/
def exitCode : Failure → Nat
  | diagnostic d => d.exitCode
  | mishap _ => Reporter.mishapExit

/-- The notice that a failure is being reported. -/
def notice : Failure → Notice
  | diagnostic d => .reporting d
  | mishap _ => .reportingMishap

/-- The line of a text that a failure speaks of. -/
def lineAt? (source : String) (firstLine : Int) : Failure → Option SourceLine
  | diagnostic d => Session.lineAt? source firstLine d
  | mishap _ => none

end Failure

/-- What a report shows of the line of a file, unless the line is empty. -/
def SourceLine.heading (style : Text.Painter) (path : String) (line : SourceLine) : String :=
  if line.text = "" then ""
  else
    style none ["bold"]
        ("  File '" ++ path ++ "', line " ++ toString line.number ++ ":\n") ++
      "    " ++ line.text ++ "\n"

/-- The report of a failure of `source`, a text that begins on line `firstLine` of `path`: the line of
which the failure speaks, if it speaks of one, and then the failure. -/
def Failure.report (style : Text.Painter) (path source : String) (firstLine : Int) (f : Failure) :
    String :=
  let alert := style (some "red") ["bold"]
  (f.lineAt? source firstLine).elim "" (SourceLine.heading style path) ++
    (if f.isMishap then alert "[internal] " else "") ++ alert "error: " ++ f.entry ++ "\n"

theorem Failure.report_mishap (path source : String) (firstLine : Int) (e : Mishap) :
    (Failure.mishap e).report .plain path source firstLine =
      "[internal] error: unknown error: '" ++ e.summary ++ "'\n" := by
  show "" ++ "[internal] " ++ "error: " ++ ("unknown error: '" ++ e.summary ++ "'") ++ "\n" = _
  apply String.toList_injective
  simp

/-! ### Reporters -/

namespace Reporter

/-- What was written besides notices. -/
def texts (r : Reporter) : List String :=
  r.written.reverse.filterMap Entry.text?

/-- No source line is known to be at fault. -/
def Unmarked (r : Reporter) : Prop :=
  ∀ entry ∈ r.traceback, entry.2 = none

section

variable {Code : Type} (r : Reporter) (path : String) (line : SourceLine) (text : String)

theorem writes_errorText (level : Nat) : Writes level (r.errorText level) r.texts :=
  ⟨r.written.reverse, rfl, rfl⟩

/-- A failure is reported, and then it ends the program, goes on or is settled. -/
theorem settle_failure (f : Failure) : r.settle (.failure f) =
    ((if r.fatal then .ends f.exitCode
      else if f.isMishap then .passes (.failure f) else .settled : Verdict Code),
      (r.note f.notice).report f.entry f.isMishap) := by
  cases f with
  | diagnostic d =>
    have hnote : (r.note (.reporting d)).fatal = r.fatal := rfl
    unfold settle conclude
    dsimp only
    rw [hnote]
    cases r.fatal with
    | false => rfl
    | true => rfl
  | mishap m => rfl

@[simp] theorem fatal_note (n : Notice) : (r.note n).fatal = r.fatal := rfl

@[simp] theorem style_note (n : Notice) : (r.note n).style = r.style := rfl

@[simp] theorem traceback_note (n : Notice) : (r.note n).traceback = r.traceback := rfl

@[simp] theorem reported_note (n : Notice) : (r.note n).reported = r.reported := rfl

@[simp] theorem texts_note (n : Notice) : (r.note n).texts = r.texts := by
  simp [texts, note, Entry.text?]

@[simp] theorem fatal_report (isMishap : Bool) : (r.report text isMishap).fatal = r.fatal := by
  unfold report
  cases h : r.fatal <;> simp [write, forgetLines, h]

@[simp] theorem style_report (isMishap : Bool) : (r.report text isMishap).style = r.style := by
  unfold report
  cases h : r.fatal <;> simp [style, write, forgetLines, h]

@[simp] theorem reported_report (isMishap : Bool) :
    (r.report text isMishap).reported = text :: r.reported := by
  unfold report
  cases h : r.fatal <;> simp [write, forgetLines, h]

@[simp] theorem texts_report (isMishap : Bool) :
    (r.report text isMishap).texts = r.texts ++ [r.reportText text isMishap] := by
  unfold report
  cases h : r.fatal <;> simp [texts, write, forgetLines, h, Entry.text?]

theorem traceback_report (isMishap : Bool) (h : r.fatal = false) :
    (r.report text isMishap).traceback = r.traceback.map fun entry ↦ (entry.1, none) := by
  unfold report
  simp [write, forgetLines, h]

end

section

variable {r : Reporter} {path : String} {line : SourceLine} {text : String}

theorem unmarked_report {isMishap : Bool} (h : r.fatal = false) :
    (r.report text isMishap).Unmarked := by
  intro entry hentry
  rw [traceback_report r text isMishap h] at hentry
  obtain ⟨_, -, rfl⟩ := List.mem_map.mp hentry
  rfl

theorem unmarked_new {fatal colored : Bool} {painter : Text.Painter} :
    (new fatal colored painter).Unmarked :=
  fun _ hentry ↦ absurd hentry List.not_mem_nil

theorem mem_place {entry : String × Option SourceLine} {shown : Option SourceLine}
    {entries : List (String × Option SourceLine)} (h : entry ∈ place path shown entries) :
    entry = (path, shown) ∨ entry ∈ entries := by
  induction entries with
  | nil => exact .inl (List.mem_singleton.mp h)
  | cons e es ih =>
    unfold place at h
    split at h
    · next hp =>
      subst hp
      rcases List.mem_cons.mp h with h | h
      · exact .inl h
      · exact .inr (List.mem_cons_of_mem _ h)
    · rcases List.mem_cons.mp h with rfl | h
      · exact .inr List.mem_cons_self
      · exact (ih h).imp_right (List.mem_cons_of_mem _)

theorem lookup_place (path name : String) (shown : Option SourceLine)
    (entries : List (String × Option SourceLine)) : (place path shown entries).lookup name =
      if name = path then some shown else entries.lookup name := by
  induction entries with
  | nil =>
    by_cases h : name = path
    · simp [place, h]
    · simp [place, List.lookup_cons, beq_false_of_ne h, h]
  | cons e es ih =>
    obtain ⟨p, l⟩ := e
    unfold place
    by_cases hp : p = path
    · subst hp
      by_cases h : name = p
      · simp [h]
      · simp [List.lookup_cons, beq_false_of_ne h, h]
    · rw [if_neg hp, List.lookup_cons, List.lookup_cons, ih]
      by_cases h : name = p
      · subst h
        simp [hp]
      · simp [beq_false_of_ne h]

theorem lookup_map_none (name : String) (entries : List (String × Option SourceLine)) :
    (entries.map fun entry ↦ (entry.1, (none : Option SourceLine))).lookup name =
      (entries.lookup name).map fun _ ↦ none := by
  induction entries with
  | nil => rfl
  | cons e es ih =>
    rw [List.map_cons, List.lookup_cons, List.lookup_cons, ih]
    cases name == e.1 <;> rfl

theorem Unmarked.mention (h : r.Unmarked) : (r.mention path).Unmarked := by
  intro entry hentry
  rcases mem_place hentry with rfl | hentry
  · rfl
  · exact h entry hentry

theorem join_sourceText {entries : List (String × Option SourceLine)}
    (h : ∀ entry ∈ entries, entry.2 = none) : String.join (entries.map r.sourceText) = "" := by
  induction entries with
  | nil => rfl
  | cons e es ih =>
    obtain ⟨he, hes⟩ := List.forall_mem_cons.mp h
    obtain ⟨p, shown⟩ := e
    obtain rfl : shown = none := he
    rw [List.map_cons, String.join_cons, ih hes]
    rfl

theorem join_sourceText_place {entries : List (String × Option SourceLine)}
    {shown : Option SourceLine} (h : ∀ entry ∈ entries, entry.2 = none) :
    String.join ((place path shown entries).map r.sourceText) = r.sourceText (path, shown) := by
  induction entries with
  | nil => rw [place, List.map_singleton, String.join_cons, String.join_nil, String.append_empty]
  | cons e es ih =>
    obtain ⟨he, hes⟩ := List.forall_mem_cons.mp h
    obtain ⟨p, other⟩ := e
    obtain rfl : other = none := he
    unfold place
    split
    · next hp =>
      subst hp
      rw [List.map_cons, String.join_cons, join_sourceText hes, String.append_empty]
    · rw [List.map_cons, String.join_cons, ih hes, sourceText, String.empty_append]

/-- What a report shows where no line is known. -/
theorem Unmarked.reportText_eq (h : r.Unmarked) (isMishap : Bool) :
    r.reportText text isMishap = (if isMishap then r.alert "[internal] " else "") ++
      r.alert "error: " ++ text ++ "\n" := by
  unfold reportText
  rw [join_sourceText h, String.empty_append]

/-- What a report shows where one line is known. -/
theorem Unmarked.reportText_pointTo (h : r.Unmarked) (isMishap : Bool) :
    (r.pointTo path line).reportText text isMishap = line.heading r.style path ++
      (if isMishap then r.alert "[internal] " else "") ++ r.alert "error: " ++ text ++ "\n" := by
  have hjoin : String.join ((r.pointTo path line).traceback.map (r.pointTo path line).sourceText) =
      r.sourceText (path, some line) :=
    join_sourceText_place h
  unfold reportText
  rw [hjoin]
  rfl

end

end Reporter

/-! ### Runs of a session -/

namespace Session

/-- A session after a run that failed and left the machine `m`. -/
def afterFailure (source : String) (firstLine : Int) (f : Failure) (m : Machine) (s : Session) :
    Session :=
  match f with
  | .diagnostic d =>
    let s := s.resume m
    let s := match lineAt? source firstLine d with
      | some line => s.withReporter (Reporter.pointTo s.path line)
      | none => s
    s.withReporter (Reporter.note (.failed s.path d))
  | .mishap _ => s.resume m

/-- A session after a run that completed and left the machine `m`. -/
def afterSuccess (m : Machine) (s : Session) : Session :=
  (s.resume m).withReporter (Reporter.mention s.path)

variable (source : String) (firstLine : Int) (f : Failure) (m : Machine) (s : Session)

theorem run_eq : (run source firstLine).run s =
    match (work s.showsTree source).run s.machine with
    | .ok _ m => .ok () (s.afterSuccess m)
    | .error f m => .error f (s.afterFailure source firstLine f m) := by
  unfold run
  simp only [EStateM.run_bind, EStateM.run_get]
  cases (work s.showsTree source).run s.machine with
  | ok _ m => rfl
  | error f m =>
    cases f with
    | diagnostic d => rfl
    | mishap e => rfl

theorem run_of_completed (h : (work s.showsTree source).run s.machine = .ok () m) :
    (run source firstLine).run s = .ok () (s.afterSuccess m) := by
  rw [run_eq, h]

theorem run_of_failed (h : (work s.showsTree source).run s.machine = .error f m) :
    (run source firstLine).run s = .error f (s.afterFailure source firstLine f m) := by
  rw [run_eq, h]

/-- A session of which a failure was settled. -/
def settled (s : Session) : Session :=
  { s with reporter := (s.reporter.note f.notice).report f.entry f.isMishap }

/-- `s'` is `s` after work that left the machine `m`. Besides notices `texts` were written, and
`entries` are reported. -/
structure Continues (s s' : Session) (m : Machine) (texts entries : List String) : Prop where
  machine : s'.machine = { m with notices := [] }
  path : s'.path = s.path
  showsTree : s'.showsTree = s.showsTree
  fatal : s'.reporter.fatal = s.reporter.fatal
  style : s'.reporter.style = s.reporter.style
  texts : s'.reporter.texts = s.reporter.texts ++ texts
  reported : s'.reporter.reported = entries ++ s.reporter.reported

theorem continues_resume : s.Continues (s.resume m) m [] [] where
  machine := rfl
  path := rfl
  showsTree := rfl
  fatal := rfl
  style := rfl
  texts := by
    have hnotices : (m.notices.map Entry.notice).reverse.filterMap Entry.text? = [] := by
      simp [Entry.text?]
    simp only [Reporter.texts, resume, List.reverse_append, List.filterMap_append, hnotices]
  reported := rfl

theorem continues_afterSuccess : s.Continues (s.afterSuccess m) m [] [] :=
  { continues_resume m s with }

theorem Continues.output_eq {s s' : Session} {m : Machine} {texts entries : List String}
    (h : s.Continues s' m texts entries) : s'.output = m.output := by
  rw [output, h.machine]
  rfl

theorem Continues.note {s s' : Session} {m : Machine} {texts entries : List String}
    (h : s.Continues s' m texts entries) (n : Notice) :
    s.Continues (s'.withReporter (Reporter.note n)) m texts entries :=
  { h with texts := (Reporter.texts_note _ n).trans h.texts }

section

variable {source : String} {firstLine : Int} {f : Failure} {m : Machine} {s s' : Session}

theorem afterFailure_of_none {d : Diagnostic} (h : lineAt? source firstLine d = none) :
    s.afterFailure source firstLine (.diagnostic d) m =
      (s.resume m).withReporter (Reporter.note (.failed s.path d)) := by
  simp only [afterFailure, h]
  rfl

theorem afterFailure_of_some {d : Diagnostic} {line : SourceLine}
    (h : lineAt? source firstLine d = some line) :
    s.afterFailure source firstLine (.diagnostic d) m =
      ((s.resume m).withReporter (Reporter.pointTo s.path line)).withReporter
        (Reporter.note (.failed s.path d)) := by
  simp only [afterFailure, h]
  rfl

theorem continues_afterFailure : s.Continues (s.afterFailure source firstLine f m) m [] [] := by
  cases f with
  | diagnostic d =>
    cases hline : lineAt? source firstLine d with
    | none =>
      rw [afterFailure_of_none hline]
      exact (continues_resume m s).note _
    | some line =>
      have hpoint : s.Continues ((s.resume m).withReporter (Reporter.pointTo s.path line)) m [] [] :=
        { continues_resume m s with }
      rw [afterFailure_of_some hline]
      exact hpoint.note _
  | mishap e => exact continues_resume m s

/-- A failed run is reported with its own line only, and entered once. -/
theorem continues_settled_afterFailure (h : s.reporter.Unmarked) :
    s.Continues ((s.afterFailure source firstLine f m).settled f) m
      [f.report s.reporter.style s.path source firstLine] [f.entry] := by
  have hcontinues : s.Continues (s.afterFailure source firstLine f m) m [] [] :=
    continues_afterFailure
  have htexts := hcontinues.texts
  rw [List.append_nil] at htexts
  have hreport : (s.afterFailure source firstLine f m).reporter.reportText f.entry f.isMishap =
      f.report s.reporter.style s.path source firstLine := by
    have hunmarked : (s.resume m).reporter.Unmarked := h
    unfold Failure.report
    dsimp only
    cases f with
    | diagnostic d =>
      cases hline : lineAt? source firstLine d with
      | none =>
        rw [afterFailure_of_none hline, Failure.lineAt?, hline, Option.elim_none,
          String.empty_append]
        exact hunmarked.reportText_eq false
      | some line =>
        rw [afterFailure_of_some hline, Failure.lineAt?, hline, Option.elim_some]
        exact hunmarked.reportText_pointTo false
    | mishap e =>
      rw [Failure.lineAt?, Option.elim_none, String.empty_append]
      exact hunmarked.reportText_eq true
  exact {
    machine := hcontinues.machine
    path := hcontinues.path
    showsTree := hcontinues.showsTree
    fatal := (Reporter.fatal_report _ _ _).trans hcontinues.fatal
    style := (Reporter.style_report _ _ _).trans hcontinues.style
    texts := by
      rw [settled, Reporter.texts_report, Reporter.texts_note, htexts, ← hreport]
      rfl
    reported := (Reporter.reported_report _ _ _).trans
      (congrArg (f.entry :: ·) hcontinues.reported) }

theorem unmarked_afterSuccess (h : s.reporter.Unmarked) : (s.afterSuccess m).reporter.Unmarked :=
  have hresume : (s.resume m).reporter.Unmarked := h
  hresume.mention

theorem unmarked_settled (h : s.reporter.fatal = false) : (s.settled f).reporter.Unmarked :=
  Reporter.unmarked_report h

theorem lookup_afterSuccess : (s.afterSuccess m).reporter.traceback.lookup s.path = some none :=
  (Reporter.lookup_place _ _ _ _).trans (if_pos rfl)

/-- A failed run leaves the line of its diagnostic if there is one, and else what was there. -/
theorem lookup_afterFailure (source : String) (firstLine : Int) (d : Diagnostic) (m : Machine)
    (s : Session) :
    (s.afterFailure source firstLine (.diagnostic d) m).reporter.traceback.lookup s.path =
      match lineAt? source firstLine d with
      | some line => some (some line)
      | none => s.reporter.traceback.lookup s.path := by
  cases hline : lineAt? source firstLine d with
  | none =>
    rw [afterFailure_of_none hline]
    rfl
  | some line =>
    rw [afterFailure_of_some hline]
    exact (Reporter.lookup_place s.path s.path (some line) s.reporter.traceback).trans (if_pos rfl)

/-- After its report no line of a failed run is known. -/
theorem lookup_settled_afterFailure (hfatal : s.reporter.fatal = false)
    (h : (s.reporter.traceback.lookup s.path).isSome) :
    ((s.afterFailure source firstLine f m).settled f).reporter.traceback.lookup s.path =
      some none := by
  have hmentioned : ((s.afterFailure source firstLine f m).reporter.traceback.lookup
      s.path).isSome := by
    cases f with
    | diagnostic d =>
      rw [lookup_afterFailure]
      cases lineAt? source firstLine d with
      | none => exact h
      | some line => rfl
    | mishap e => exact h
  have hnoted : ((s.afterFailure source firstLine f m).reporter.note f.notice).fatal = false :=
    continues_afterFailure.fatal.trans hfatal
  obtain ⟨shown, hshown⟩ := Option.isSome_iff_exists.mp hmentioned
  rw [settled, Reporter.traceback_report _ f.entry f.isMishap hnoted, Reporter.traceback_note,
    Reporter.lookup_map_none]
  rw [hshown, Option.map_some]

end

end Session

end LoxLang
