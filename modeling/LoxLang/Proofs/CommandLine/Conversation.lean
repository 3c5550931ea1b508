import LoxLang.CommandLine
import LoxLang.Proofs.Console.Invariant

/-!
Reports in a conversation.

The typed lines up to a command that ends the conversation fall into statements, which are worked on
in turn up to the first that ends with a mishap (`failuresOf`). A failure is settled by the console,
and a mishap goes on from there and is settled once more by the program, with the same reporter. So
the reports are those of the failed statements in their order, one for a diagnostic and two for a
mishap, and the reporter enters as many failures (`reports_of_run`).
-/

set_option autoImplicit false
set_option relaxedAutoImplicit false

namespace LoxLang

open Text Console

/-! ### Sessions that are handed over -/

namespace Session

variable {s s' : Session} {m : Machine} {texts entries : List String}

theorem Ready.clear (h : s.Ready) : s.clear.Ready :=
  ⟨h.path, h.fatal, h.lookup⟩

theorem Continues.machine_clear (h : s.Continues s' m texts entries) :
    s'.clear.machine = .ofScopes m.scopes := by
  rw [clear, h.machine]
  rfl

end Session

namespace CommandLine

/-! ### Statements that fail -/

/-- A statement of which the work failed. Its text begins on line `start` of the source lines. -/
structure FailedStatement where
  start : Nat
  text : String
  failure : Failure
  deriving DecidableEq

namespace FailedStatement

/-- A diagnostic is reported once, and a mishap by the console and by the program. -/
def times (x : FailedStatement) : Nat :=
  if x.failure.isMishap then 2 else 1

def reports (style : Painter) (x : FailedStatement) : List String :=
  List.replicate x.times (x.failure.report style Session.inputPath x.text x.start)

/-- What is entered for the statement among the failures that were reported. -/
def entries (x : FailedStatement) : List String :=
  List.replicate x.times x.failure.entry

end FailedStatement

/-- Works on texts in turn, and gives those that fail. A mishap is the last one. -/
def failuresOf (showsTree : Bool) : Chain → List (Nat × String) → List FailedStatement
  | _, [] => []
  | scopes, (start, text) :: texts =>
    match (Session.work showsTree text).run (.ofScopes scopes) with
    | .ok _ m => failuresOf showsTree m.scopes texts
    | .error (.diagnostic d) m =>
      ⟨start, text, .diagnostic d⟩ :: failuresOf showsTree m.scopes texts
    | .error (.mishap e) _ => [⟨start, text, .mishap e⟩]

/-- The texts of statements, each with the number of its first line, where `n` lines stand before
them. -/
def numbered (n : Nat) : List (List String) → List (Nat × String)
  | [] => []
  | s :: ss => (n + 1, joined s) :: numbered (n + s.length) ss

section

variable {showsTree : Bool} {scopes : Chain} {m : Machine} {n : Nat} {s : List String}
  {ss : List (List String)}

theorem failuresOf_of_completed
    (hwork : (Session.work showsTree (joined s)).run (.ofScopes scopes) = .ok () m) :
    failuresOf showsTree scopes (numbered n (s :: ss)) =
      failuresOf showsTree m.scopes (numbered (n + s.length) ss) := by
  rw [numbered, failuresOf, hwork]

theorem failuresOf_of_diagnostic {d : Diagnostic}
    (hwork : (Session.work showsTree (joined s)).run (.ofScopes scopes) =
      .error (.diagnostic d) m) :
    failuresOf showsTree scopes (numbered n (s :: ss)) = ⟨n + 1, joined s, .diagnostic d⟩ ::
      failuresOf showsTree m.scopes (numbered (n + s.length) ss) := by
  rw [numbered, failuresOf, hwork]

theorem failuresOf_of_mishap {e : Mishap}
    (hwork : (Session.work showsTree (joined s)).run (.ofScopes scopes) = .error (.mishap e) m) :
    failuresOf showsTree scopes (numbered n (s :: ss)) = [⟨n + 1, joined s, .mishap e⟩] := by
  rw [numbered, failuresOf, hwork]

end

/-! ### Conversations -/

/-- The line ends a conversation. -/
def isEnd (line : String) : Bool :=
  match Command.ofWord? (strip line) with
  | some .exit | some .endOfInput => true
  | _ => false

/-- The lines before the one that ends the conversation. -/
def heard (lines : List String) : List String :=
  lines.takeWhile (!isEnd ·)

/-- The reporter when the conversation has ended with a turn. -/
def Turn.lastReporter (t : Turn) : Reporter :=
  match t.outcome with
  | .fails f => (t.console.session.reporter.settle (.failure f) : Verdict Empty × Reporter).2
  | _ => t.console.session.reporter

/-- The answer to a conversation, and the reporter when it has ended. -/
def conversation (settings : Settings) (c : Console) : List String → Answer × Reporter
  | [] =>
    let t := turn settings endWord c
    (((t.answer? settings).getD {}).after (c.prompt ++ t.out) t.err, t.lastReporter)
  | line :: lines =>
    let t := turn settings line c
    match t.answer? settings with
    | some a => (a.after (c.prompt ++ t.out) t.err, t.lastReporter)
    | none =>
      let (a, r) := conversation settings t.console lines
      (a.after (c.prompt ++ t.out) t.err, r)

theorem fst_conversation (settings : Settings) (c : Console) (lines : List String) :
    (conversation settings c lines).1 = converse settings c lines := by
  induction lines generalizing c with
  | nil => rfl
  | cons line lines ih =>
    unfold conversation converse
    dsimp only
    cases (turn settings line c).answer? settings with
    | some a => rfl
    | none =>
      dsimp only
      rw [ih]
      rfl

/-! ### Between two turns -/

/-- A console between two turns: all that it brought forth is handed over. -/
structure Awaits (settings : Settings) (painter : Painter) (lines : List String)
    (done : List (List String)) (rest : List String) (scopes : Chain) (c : Console) : Prop where
  stands : Stands settings.prompt.shown lines done rest c
  ready : c.session.Ready
  unmarked : c.session.reporter.Unmarked
  machine : c.session.machine = .ofScopes scopes
  written : c.session.reporter.written = []
  style : c.session.reporter.style = painter.when settings.colored
  showsTree : c.session.showsTree = settings.showsTree

/-- What a conversation tells of the statements that fail in it: the reports on the error stream, and
what the reporter has entered. -/
structure Tells (settings : Settings) (painter : Painter) (c : Console)
    (ending : Answer × Reporter) (failed : List FailedStatement) : Prop where
  writes : Writes settings.logLevel ending.1.err
    (failed.flatMap (·.reports (painter.when settings.colored)))
  reported : ending.2.reported.reverse =
    c.session.reporter.reported.reverse ++ failed.flatMap FailedStatement.entries

section

variable {settings : Settings} {painter : Painter} {lines rest : List String}
  {done : List (List String)} {scopes : Chain} {c : Console} {line : String}

theorem awaits_openConsole (settings : Settings) (painter : Painter) :
    Awaits settings painter [] [] [] default (openConsole settings painter) where
  stands := stands_new _ _
  ready := Session.ready_begin _ _
  unmarked := Reporter.unmarked_new.mention
  machine := rfl
  written := rfl
  style := rfl
  showsTree := rfl

namespace Awaits

theorem clear (h : Awaits settings painter lines done rest scopes c) :
    Awaits settings painter lines done rest scopes { c with session := c.session.clear } where
  stands := { h.stands with }
  ready := h.ready.clear
  unmarked := h.unmarked
  machine := by
    rw [Session.clear, h.machine]
    rfl
  written := rfl
  style := h.style
  showsTree := h.showsTree

theorem texts_eq (h : Awaits settings painter lines done rest scopes c) :
    c.session.reporter.texts = [] := by
  rw [Reporter.texts, h.written]
  rfl

theorem keep (h : Awaits settings painter lines done rest scopes c)
    (hopen : isUnfinished (c.extended line) = true) :
    Awaits settings painter (lines ++ [line]) done (rest ++ [line]) scopes
      (c.advance (c.extended line) secondaryPrompt) :=
  { h with stands := h.stands.keep hopen }

/-- A statement was worked on, and all that the work brought forth was handed over. -/
theorem close {session : Session} {m : Machine} {texts entries : List String}
    (h : Awaits settings painter lines done rest scopes c)
    (hclosed : isUnfinished (c.extended line) = false)
    (hcontinues : c.session.Continues session m texts entries) (hready : session.Ready)
    (hunmarked : session.reporter.Unmarked) :
    Awaits settings painter (lines ++ [line]) (done ++ [rest ++ [line]]) [] m.scopes
      { c.advance "" c.primaryPrompt with session := session.clear } where
  stands := h.stands.close hclosed session.clear
  ready := hready.clear
  unmarked := hunmarked
  machine := hcontinues.machine_clear
  written := rfl
  style := hcontinues.style.trans h.style
  showsTree := hcontinues.showsTree.trans h.showsTree

end Awaits

/-! ### Turns -/

/-- A line after which the console tells of the statements `now`. -/
structure Brings (settings : Settings) (painter : Painter) (c after : Console)
    (now : List FailedStatement) : Prop where
  texts : after.session.reporter.texts = now.flatMap (·.reports (painter.when settings.colored))
  reported : after.session.reporter.reported.reverse =
    c.session.reporter.reported.reverse ++ now.flatMap FailedStatement.entries

theorem outcome_turn (settings : Settings) (line : String) (c : Console) :
    (turn settings line c).outcome = (c.feed line).1.outcome := by
  unfold turn
  generalize c.feed line = r
  rfl

theorem console_turn (settings : Settings) (line : String) (c : Console) :
    (turn settings line c).console =
      { (c.feed line).2 with session := (c.feed line).2.session.clear } := by
  unfold turn
  generalize c.feed line = r
  rfl

theorem writes_turn (settings : Settings) (line : String) (c : Console) :
    Writes settings.logLevel (turn settings line c).err
      (c.feed line).2.session.reporter.texts := by
  unfold turn
  generalize c.feed line = r
  exact Reporter.writes_errorText _ _

theorem tells_of_goesOn {now later : List FailedStatement} {more : List String}
    (houtcome : (c.feed line).1.outcome = .goesOn)
    (hnow : Brings settings painter c (c.feed line).2 now)
    (hlater : Tells settings painter (turn settings line c).console
      (conversation settings (turn settings line c).console more) later) :
    Tells settings painter c (conversation settings c (line :: more)) (now ++ later) := by
  have hanswer : (turn settings line c).answer? settings = none := by
    rw [Turn.answer?, outcome_turn, houtcome]
  have hsame : (turn settings line c).console.session.reporter.reported =
      (c.feed line).2.session.reporter.reported := by
    simp only [console_turn, Session.clear]
  have hwrites := writes_turn settings line c
  rw [hnow.texts] at hwrites
  have hreported := hlater.reported
  rw [hsame, hnow.reported, List.append_assoc, ← List.flatMap_append] at hreported
  unfold conversation
  simp only [hanswer]
  exact ⟨by rw [List.flatMap_append]; exact hwrites.append hlater.writes, hreported⟩

/-- A line that leaves the console as it is tells of nothing. -/
theorem tells_of_passed (h : Awaits settings painter lines done rest scopes c) {reply : Reply}
    (hfeed : c.feed line = (reply, c)) (hreply : reply.outcome = .goesOn)
    {later : List FailedStatement} {more : List String}
    (hlater : Tells settings painter { c with session := c.session.clear }
      (conversation settings { c with session := c.session.clear } more) later) :
    Tells settings painter c (conversation settings c (line :: more)) later := by
  have hnow : Brings settings painter c (c.feed line).2 [] := by
    rw [hfeed]
    exact ⟨h.texts_eq, (List.append_nil _).symm⟩
  have hafter : (turn settings line c).console = { c with session := c.session.clear } := by
    rw [console_turn, hfeed]
  rw [← hafter] at hlater
  exact tells_of_goesOn (by rw [hfeed]; exact hreply) hnow hlater

/-- The end of the input is the command that ends a conversation. -/
theorem tells_of_stops (h : Awaits settings painter lines done rest scopes c) {command : Command}
    (hcommand : Command.ofWord? (strip line) = some command)
    (houtcome : (answer command).outcome = .stops) :
    (∀ more, Tells settings painter c (conversation settings c (line :: more)) []) ∧
      (line = endWord → Tells settings painter c (conversation settings c []) []) := by
  have houtcome : (turn settings line c).outcome = .stops := by
    rw [outcome_turn, feed_of_command hcommand]
    exact houtcome
  have hanswer : (turn settings line c).answer? settings = some {} := by
    rw [Turn.answer?, houtcome]
  have hreported : (turn settings line c).lastReporter.reported = c.session.reporter.reported := by
    rw [Turn.lastReporter, houtcome, console_turn, feed_of_command hcommand]
    rfl
  have hwrites := writes_turn settings line c
  rw [feed_of_command hcommand, h.texts_eq] at hwrites
  have htells : Tells settings painter c
      (Answer.after (c.prompt ++ (turn settings line c).out) (turn settings line c).err {},
        (turn settings line c).lastReporter) [] := by
    constructor
    · exact hwrites.append (writes_nil _)
    · rw [hreported, List.flatMap_nil, List.append_nil]
  refine ⟨fun more ↦ ?_, fun hend ↦ ?_⟩
  · unfold conversation
    simp only [hanswer]
    exact htells
  · subst hend
    unfold conversation
    simp only [hanswer, Option.getD_some]
    exact htells

/-- Where failures do not end the program, a mishap escapes after its report. -/
theorem writes_finish_mishap {r : Reporter} (hfatal : r.fatal = false) (hunmarked : r.Unmarked)
    (hwritten : r.written = []) (source : String) (start : Int) (e : Mishap) :
    Writes settings.logLevel (finish settings (some (.mishap e)) r).err
      [(Failure.mishap e).report r.style Session.inputPath source start] := by
  have hnoted : (r.note .reportingMishap).Unmarked := hunmarked
  have htexts : ((r.note .reportingMishap).report (Failure.mishap e).entry true).texts =
      [(Failure.mishap e).report r.style Session.inputPath source start] := by
    rw [Reporter.texts_report, Reporter.texts_note, Reporter.texts, hwritten,
      hnoted.reportText_eq true]
    rfl
  have herr : (finish settings (some (.mishap e)) r).err =
      ((r.note .reportingMishap).report (Failure.mishap e).entry true).errorText
        settings.logLevel := by
    unfold finish
    simp only [Reporter.settle_failure, hfatal]
    rfl
  rw [herr, ← htexts]
  exact Reporter.writes_errorText _ _

/-- A mishap that the console has settled goes on and is settled again. -/
theorem tells_of_fails {start : Nat} {text : String} {e : Mishap} {more : List String}
    (houtcome : (c.feed line).1.outcome = .fails (.mishap e))
    (hready : (c.feed line).2.session.Ready)
    (hunmarked : (c.feed line).2.session.reporter.Unmarked)
    (hstyle : (c.feed line).2.session.reporter.style = painter.when settings.colored)
    (htexts : (c.feed line).2.session.reporter.texts =
      [(Failure.mishap e).report (painter.when settings.colored) Session.inputPath text start])
    (hreported : (c.feed line).2.session.reporter.reported =
      (Failure.mishap e).entry :: c.session.reporter.reported) :
    Tells settings painter c (conversation settings c (line :: more)) [⟨start, text, .mishap e⟩] := by
  have hwrites := writes_turn settings line c
  have houtcome : (turn settings line c).outcome = .fails (.mishap e) := by
    rw [outcome_turn, houtcome]
  have hsession : (turn settings line c).console.session = (c.feed line).2.session.clear := by
    rw [console_turn]
  generalize (c.feed line).2.session = s at *
  have hanswer : (turn settings line c).answer? settings =
      some (finish settings (some (.mishap e)) s.clear.reporter) := by
    rw [Turn.answer?, houtcome, hsession]
  have hlast : (turn settings line c).lastReporter.reported =
      (Failure.mishap e).entry :: (Failure.mishap e).entry :: c.session.reporter.reported := by
    rw [Turn.lastReporter, houtcome, hsession]
    dsimp only
    rw [Reporter.settle_failure, Reporter.reported_report, Reporter.reported_note, ← hreported]
    rfl
  have hclean : s.clear.reporter.written = [] := rfl
  have hagain : Writes settings.logLevel
      (finish settings (some (.mishap e)) s.clear.reporter).err
      [(Failure.mishap e).report s.clear.reporter.style Session.inputPath text start] :=
    writes_finish_mishap hready.clear.fatal hunmarked hclean text start e
  have hsame : s.clear.reporter.style = painter.when settings.colored := hstyle
  rw [hsame] at hagain
  rw [htexts] at hwrites
  unfold conversation
  simp only [hanswer]
  refine ⟨hwrites.append hagain, ?_⟩
  rw [hlast, List.reverse_cons, List.reverse_cons, List.append_assoc]
  rfl

/-! ### Whole conversations -/

theorem heard_cons_of_not_isEnd (h : isEnd line = false) (more : List String) :
    heard (line :: more) = line :: heard more :=
  List.takeWhile_cons_of_pos (by simpa using h)

theorem heard_cons_of_isEnd (h : isEnd line = true) (more : List String) :
    heard (line :: more) = [] :=
  List.takeWhile_cons_of_neg (by simpa using h)

theorem sourceLines_heard_cons (h : IsSource line) (more : List String) :
    sourceLines (heard (line :: more)) = line :: sourceLines (heard more) := by
  have hend : isEnd line = false := by rw [isEnd, h.2]
  rw [heard_cons_of_not_isEnd hend, sourceLines_cons_of_isSource h]

theorem sourceLines_heard_of_isSource {lines : List String} (h : ∀ line ∈ lines, IsSource line) :
    sourceLines (heard lines) = lines := by
  induction lines with
  | nil => rfl
  | cons line lines ih =>
    obtain ⟨hline, hlines⟩ := List.forall_mem_cons.mp h
    rw [sourceLines_heard_cons hline, ih hlines]

/-- From a console between two turns, the rest of the conversation tells of the statements that fail
among those that are still to come. -/
def Accounts (settings : Settings) (painter : Painter) (lines : List String)
    (done : List (List String)) (scopes : Chain) (c : Console) (more : List String) : Prop :=
  ∃ done' rest', Falls (lines ++ sourceLines (heard more)) (done ++ done') rest' ∧
    Tells settings painter c (conversation settings c more)
      (failuresOf settings.showsTree scopes (numbered done.flatten.length done'))

section

variable {more : List String}

theorem accounts_of_passed (h : Awaits settings painter lines done rest scopes c)
    (hline : ¬ IsSource line) (hend : isEnd line = false) {reply : Reply}
    (hfeed : c.feed line = (reply, c)) (hreply : reply.outcome = .goesOn)
    (hlater : Accounts settings painter lines done scopes { c with session := c.session.clear }
      more) :
    Accounts settings painter lines done scopes c (line :: more) := by
  obtain ⟨done', rest', hfalls, htells⟩ := hlater
  refine ⟨done', rest', ?_, tells_of_passed h hfeed hreply htells⟩
  rwa [heard_cons_of_not_isEnd hend, sourceLines_cons_of_not_isSource hline]

theorem accounts_of_stops (h : Awaits settings painter lines done rest scopes c) {command : Command}
    (hcommand : Command.ofWord? (strip line) = some command) (hend : isEnd line = true)
    (houtcome : (answer command).outcome = .stops) :
    Accounts settings painter lines done scopes c (line :: more) := by
  refine ⟨[], rest, ?_, (tells_of_stops h hcommand houtcome).1 more⟩
  rw [heard_cons_of_isEnd hend, sourceLines_nil, List.append_nil, List.append_nil]
  exact h.stands.falls

theorem accounts_of_kept (h : Awaits settings painter lines done rest scopes c)
    (hline : IsSource line) (hopen : isUnfinished (c.extended line) = true)
    (hlater : ∀ {rest c}, Awaits settings painter (lines ++ [line]) done rest scopes c →
      Accounts settings painter (lines ++ [line]) done scopes c more) :
    Accounts settings painter lines done scopes c (line :: more) := by
  have hfeed := feed_of_unfinished hline hopen
  have hnow : Brings settings painter c (c.feed line).2 [] := by
    rw [hfeed]
    exact ⟨h.texts_eq, (List.append_nil _).symm⟩
  have hawaits : Awaits settings painter (lines ++ [line]) done (rest ++ [line]) scopes
      (turn settings line c).console := by
    rw [console_turn, hfeed]
    exact (h.keep hopen).clear
  obtain ⟨done', rest', hfalls, htells⟩ := hlater hawaits
  refine ⟨done', rest', ?_, tells_of_goesOn (by rw [hfeed]) hnow htells⟩
  rwa [sourceLines_heard_cons hline, ← List.singleton_append, ← List.append_assoc]

/-- A statement whose work tells of `now` and leaves `scopes'`, before the statements to come. -/
theorem accounts_of_closed (hline : IsSource line) {scopes' : Chain} {now : List FailedStatement}
    (houtcome : (c.feed line).1.outcome = .goesOn)
    (hnow : Brings settings painter c (c.feed line).2 now)
    (hfailures : ∀ done', failuresOf settings.showsTree scopes
      (numbered done.flatten.length ((rest ++ [line]) :: done')) =
        now ++ failuresOf settings.showsTree scopes'
          (numbered (done.flatten.length + (rest ++ [line]).length) done'))
    (hlater : Accounts settings painter (lines ++ [line]) (done ++ [rest ++ [line]]) scopes'
      (turn settings line c).console more) :
    Accounts settings painter lines done scopes c (line :: more) := by
  obtain ⟨done', rest', hfalls, htells⟩ := hlater
  rw [List.flatten_concat, List.length_append] at htells
  rw [List.append_assoc, List.append_assoc] at hfalls
  refine ⟨(rest ++ [line]) :: done', rest', ?_, ?_⟩
  · rwa [sourceLines_heard_cons hline]
  · rw [hfailures]
    exact tells_of_goesOn houtcome hnow htells

theorem accounts_of_completed {m : Machine} (h : Awaits settings painter lines done rest scopes c)
    (hline : IsSource line) (hclosed : isUnfinished (c.extended line) = false)
    (hwork : (Session.work c.session.showsTree (c.extended line)).run c.session.machine = .ok () m)
    (hlater : ∀ {c},
      Awaits settings painter (lines ++ [line]) (done ++ [rest ++ [line]]) [] m.scopes c →
      Accounts settings painter (lines ++ [line]) (done ++ [rest ++ [line]]) m.scopes c more) :
    Accounts settings painter lines done scopes c (line :: more) := by
  have hfeed := feed_of_completed hline hclosed hwork
  have hcontinues := Session.continues_afterSuccess m c.session
  have hnow : Brings settings painter c (c.feed line).2 [] := by
    rw [hfeed]
    exact ⟨hcontinues.texts.trans (by rw [h.texts_eq]; rfl), (List.append_nil _).symm⟩
  have hawaits : Awaits settings painter (lines ++ [line]) (done ++ [rest ++ [line]]) [] m.scopes
      (turn settings line c).console := by
    rw [console_turn, hfeed]
    exact h.close hclosed hcontinues h.ready.afterSuccess
      (Session.unmarked_afterSuccess h.unmarked)
  rw [h.showsTree, h.machine, h.stands.extended_eq] at hwork
  exact accounts_of_closed hline (by rw [hfeed]) hnow
    (fun done' ↦ failuresOf_of_completed hwork) (hlater hawaits)

theorem accounts_of_failed {f : Failure} {m : Machine}
    (h : Awaits settings painter lines done rest scopes c)
    (hline : IsSource line) (hclosed : isUnfinished (c.extended line) = false)
    (hwork : (Session.work c.session.showsTree (c.extended line)).run c.session.machine =
      .error f m)
    (hlater : ∀ {c},
      Awaits settings painter (lines ++ [line]) (done ++ [rest ++ [line]]) [] m.scopes c →
      Accounts settings painter (lines ++ [line]) (done ++ [rest ++ [line]]) m.scopes c more) :
    Accounts settings painter lines done scopes c (line :: more) := by
  have hfeed := feed_of_failed hline hclosed h.ready.fatal hwork
  have hcontinues := h.stands.continues_settled line h.ready h.unmarked f m
  rw [h.style] at hcontinues
  have hunmarked : ((c.session.afterFailure (c.extended line) c.nextStart f m).settled
      f).reporter.Unmarked :=
    Session.unmarked_settled (Session.continues_afterFailure.fatal.trans h.ready.fatal)
  have htexts := hcontinues.texts
  rw [h.texts_eq, List.nil_append] at htexts
  rw [h.showsTree, h.machine, h.stands.extended_eq] at hwork
  cases f with
  | diagnostic d =>
    have hnow : Brings settings painter c (c.feed line).2
        [⟨done.flatten.length + 1, joined (rest ++ [line]), .diagnostic d⟩] := by
      rw [hfeed]
      refine ⟨htexts, ?_⟩
      rw [hcontinues.reported, List.reverse_append]
      rfl
    have hawaits : Awaits settings painter (lines ++ [line]) (done ++ [rest ++ [line]]) [] m.scopes
        (turn settings line c).console := by
      rw [console_turn, hfeed]
      exact h.close hclosed hcontinues h.ready.settled_afterFailure hunmarked
    exact accounts_of_closed hline (by rw [hfeed]; rfl) hnow
      (fun done' ↦ failuresOf_of_diagnostic hwork) (hlater hawaits)
  | mishap e =>
    -- What follows is not fed, but it falls into statements all the same.
    obtain ⟨done', rest', hfalls⟩ :=
      (h.stands.close hclosed c.session).falls.exists_more (sourceLines (heard more))
    rw [List.append_assoc, List.append_assoc] at hfalls
    refine ⟨(rest ++ [line]) :: done', rest', ?_, ?_⟩
    · rwa [sourceLines_heard_cons hline]
    · rw [failuresOf_of_mishap hwork]
      refine tells_of_fails (by rw [hfeed]; rfl) ?_ ?_ ?_ ?_ ?_
      all_goals rw [hfeed]
      · exact h.ready.settled_afterFailure
      · exact hunmarked
      · exact hcontinues.style.trans h.style
      · exact htexts
      · exact hcontinues.reported

theorem accounts_of_awaits (h : Awaits settings painter lines done rest scopes c) (more : List String) :
    Accounts settings painter lines done scopes c more := by
  induction more generalizing c lines done rest scopes with
  | nil =>
    have hcommand : Command.ofWord? (strip endWord) = some .endOfInput := rfl
    refine ⟨[], rest, ?_, (tells_of_stops h hcommand rfl).2 rfl⟩
    have hnone : sourceLines (heard []) = [] := rfl
    rw [hnone, List.append_nil, List.append_nil]
    exact h.stands.falls
  | cons line more ih =>
    have hfeeds := feeds c line h.ready.fatal
    generalize hfeed : c.feed line = result at hfeeds
    cases hfeeds with
    | blank hblank =>
      have hend : isEnd line = false := by
        rw [isEnd, hblank]
        rfl
      have hline : ¬ IsSource line := fun hline ↦ hline.1 hblank
      exact accounts_of_passed h hline hend hfeed rfl (ih h.clear)
    | @command command hcommand =>
      have hline : ¬ IsSource line := fun hline ↦ by simp [hline.2] at hcommand
      cases command with
      | help =>
        have hend : isEnd line = false := by rw [isEnd, hcommand]
        exact accounts_of_passed h hline hend hfeed rfl (ih h.clear)
      | exit | endOfInput =>
        have hend : isEnd line = true := by rw [isEnd, hcommand]
        exact accounts_of_stops h hcommand hend rfl
    | kept hline hopen => exact accounts_of_kept h hline hopen ih
    | completed hline hclosed hwork => exact accounts_of_completed h hline hclosed hwork ih
    | failed hline hclosed hwork => exact accounts_of_failed h hline hclosed hwork ih

end

end

theorem tells_of_falls {settings : Settings} {painter : Painter} {lines rest : List String}
    {done : List (List String)} (h : Falls (sourceLines (heard lines)) done rest) :
    let c := openConsole settings painter
    Tells settings painter c (conversation settings c lines)
      (failuresOf settings.showsTree default (numbered 0 done)) := by
  obtain ⟨done', rest', hfalls, htells⟩ :=
    accounts_of_awaits (awaits_openConsole settings painter) lines
  obtain ⟨rfl, rfl⟩ := h.unique hfalls
  exact htells

section

variable {arguments : List String} {environment : List (String × String)} {settings : Settings}
  {painter : Painter}

theorem run_of_plan (hplan : plan arguments environment = .ok (settings, none)) (input : String)
    (readFile : String → Except Mishap String) : run painter arguments environment input readFile =
      (conversation settings (openConsole settings painter) (inputLines input)).1.after
        Console.welcome "" := by
  unfold run
  rw [hplan, fst_conversation]

theorem err_run_of_plan (hplan : plan arguments environment = .ok (settings, none))
    (input : String) (readFile : String → Except Mishap String) :
    (run painter arguments environment input readFile).err =
      (conversation settings (openConsole settings painter) (inputLines input)).1.err := by
  rw [run_of_plan hplan]
  exact String.empty_append

/-- For all arguments that ask for no file, and every standard input: the lines before the end of the
conversation fall into statements and lines that only begin one. Besides notices, the reports of the
failed statements stand on the error stream in their order, one for each diagnostic and two for a
mishap, which is the last failure of all. The reporter has entered the failures in the same order,
each as often as it is reported. -/
theorem reports_of_run (input : String) (readFile : String → Except Mishap String)
    (hplan : plan arguments environment = .ok (settings, none)) :
    let ending := conversation settings (openConsole settings painter) (inputLines input)
    run painter arguments environment input readFile = ending.1.after Console.welcome "" ∧
    ∃ done rest, Falls (sourceLines (heard (inputLines input))) done rest ∧
      let failed := failuresOf settings.showsTree default (numbered 0 done)
      Writes settings.logLevel (run painter arguments environment input readFile).err
        (failed.flatMap (·.reports (painter.when settings.colored))) ∧
      ending.2.reported.reverse = failed.flatMap FailedStatement.entries := by
  intro ending
  obtain ⟨done, rest, hfalls, hwrites, hreported⟩ :=
    accounts_of_awaits (awaits_openConsole settings painter) (inputLines input)
  refine ⟨run_of_plan hplan input readFile, done, rest, hfalls, ?_, hreported⟩
  rw [err_run_of_plan hplan]
  exact hwrites

end

/-- An unbound name and a division by zero, each with its report. -/
theorem reports_of_run_of_mistakes :
    let input := "print x;\nprint nil;\nprint 2 / 0;\nexit\nprint y;\n"
    let unbound : Diagnostic := .undefinedVariable ⟨.identifier, "x", .nil, 1⟩
    let division : Diagnostic := .divisionByZero ⟨.slash, "/", .nil, 1⟩
    (run .plain ["--no-color"] [] input fun path ↦ .error (.cannotOpen path .noSuchFile)).err =
      (Failure.diagnostic unbound).report .plain Session.inputPath "print x;" 1 ++
        (Failure.diagnostic division).report .plain Session.inputPath "print 2 / 0;" 3 := by
  intro input unbound division
  have hplan : plan ["--no-color"] [] =
      .ok (⟨30, false, false, .text defaultPrompt⟩, none) := rfl
  have hfalls : Falls (sourceLines (heard (inputLines input)))
      [["print x;"], ["print nil;"], ["print 2 / 0;"]] [] := by
    have hlines : sourceLines (heard (inputLines input)) =
        ["print x;", "print nil;", "print 2 / 0;"] := by decide +kernel
    rw [hlines]
    exact falls_singletons (by decide +kernel)
  obtain ⟨-, done, rest, hdone, hwrites, -⟩ :=
    reports_of_run input (fun path ↦ .error (.cannotOpen path .noSuchFile)) hplan
  obtain ⟨rfl, rfl⟩ := hdone.unique hfalls
  have hfailed : failuresOf false default
      (numbered 0 [["print x;"], ["print nil;"], ["print 2 / 0;"]]) =
        [⟨1, "print x;", .diagnostic unbound⟩, ⟨3, "print 2 / 0;", .diagnostic division⟩] := by
    decide +kernel
  rw [hfailed] at hwrites
  refine (hwrites.eq_join (by decide)).trans ?_
  show String.join [(Failure.diagnostic unbound).report .plain Session.inputPath "print x;" 1,
    (Failure.diagnostic division).report .plain Session.inputPath "print 2 / 0;" 3] = _
  rw [String.join_cons, String.join_cons, String.join_nil, String.append_empty]

/-- A product with too many digits to be printed is one failure, but it is reported and entered
twice. -/
theorem mishap_reported_twice :
    let input := "var x = 9999999999;\nx = x*x*x*x*x*x*x*x;\nx = x*x*x*x*x*x*x*x;\n" ++
      "x = x*x*x*x*x*x*x*x;\nprint x;\n"
    let lines := ["var x = 9999999999;", "x = x*x*x*x*x*x*x*x;", "x = x*x*x*x*x*x*x*x;",
      "x = x*x*x*x*x*x*x*x;", "print x;"]
    let settings : Settings := ⟨30, false, false, .text defaultPrompt⟩
    let report := (Failure.mishap .integerTooLong).report .plain Session.inputPath "print x;" 5
    inputLines input = lines ∧
      failuresOf settings.showsTree default (numbered 0 (lines.map ([·]))) =
        [⟨5, "print x;", .mishap .integerTooLong⟩] ∧
      (run .plain ["--no-color"] [] input fun path ↦ .error (.cannotOpen path .noSuchFile)).err =
        report ++ report ∧
      (conversation settings (openConsole settings .plain) lines).2.reported.length = 2 := by
  intro input lines settings report
  have hinput : inputLines input = lines := by decide +kernel
  have hfalls : Falls (sourceLines (heard lines)) (lines.map ([·])) [] := by
    rw [sourceLines_heard_of_isSource (by decide +kernel)]
    exact falls_singletons (by decide +kernel)
  have hfailed : failuresOf settings.showsTree default (numbered 0 (lines.map ([·]))) =
      [⟨5, "print x;", .mishap .integerTooLong⟩] := by
    decide +kernel
  have htells : Tells settings .plain (openConsole settings .plain)
      (conversation settings (openConsole settings .plain) lines)
      (failuresOf settings.showsTree default (numbered 0 (lines.map ([·])))) :=
    tells_of_falls hfalls
  rw [hfailed] at htells
  have hplan : plan ["--no-color"] [] = .ok (settings, none) := rfl
  refine ⟨hinput, hfailed, ?_, ?_⟩
  · rw [err_run_of_plan hplan, hinput, htells.writes.eq_join (by decide)]
    show String.join [report, report] = report ++ report
    rw [String.join_cons, String.join_cons, String.join_nil, String.append_empty]
  · have hlength := congrArg List.length htells.reported
    rwa [List.length_reverse] at hlength

end CommandLine

end LoxLang
