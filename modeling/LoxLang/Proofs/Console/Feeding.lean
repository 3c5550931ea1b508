import LoxLang.Console
import LoxLang.Proofs.Reporting.Reports
import Mathlib.Data.List.Induction

/-!
What a line does to a console.

Blank lines and commands leave the console as it is. A line of source text is either kept or it runs a
statement, and the run completes or its failure is settled. That is all a line can do
(`feeds`).
-/

set_option autoImplicit false
set_option relaxedAutoImplicit false

namespace LoxLang.Console

open Text

/-- Feeds lines one after another. -/
def feedAll (c : Console) : List String → List Reply × Console
  | [] => ([], c)
  | line :: lines =>
    let (reply, c) := c.feed line
    let (replies, c) := feedAll c lines
    (reply :: replies, c)

theorem feedAll_append (c : Console) (lines lines' : List String) :
    c.feedAll (lines ++ lines') = ((c.feedAll lines).1 ++ ((c.feedAll lines).2.feedAll lines').1,
      ((c.feedAll lines).2.feedAll lines').2) := by
  induction lines generalizing c with
  | nil => rfl
  | cons line lines ih => simp only [List.cons_append, feedAll, ih]

theorem snd_feedAll_concat (c : Console) (lines : List String) (line : String) :
    (c.feedAll (lines ++ [line])).2 = ((c.feedAll lines).2.feed line).2 := by
  simp only [feedAll_append, feedAll]

/-- What holds of a console before its first line, and after a line if it held before the line, holds
after all lines. -/
theorem feedAll_induction {c : Console} {P : List String → Console → Prop} (hstart : P [] c)
    (hfeed : ∀ lines c line, P lines c → P (lines ++ [line]) (c.feed line).2) (lines : List String) :
    P lines (c.feedAll lines).2 := by
  induction lines using List.reverseRecOn with
  | nil => exact hstart
  | append_singleton lines line ih =>
    rw [snd_feedAll_concat]
    exact hfeed lines (c.feedAll lines).2 line ih

/-- A line of source text: neither blank nor a command. -/
def IsSource (line : String) : Prop :=
  strip line ≠ "" ∧ Command.ofWord? (strip line) = none

instance : DecidablePred IsSource := fun _ ↦ inferInstanceAs (Decidable (_ ∧ _))

/-- The number of the line on which the statement of the next line begins. -/
def nextStart (c : Console) : Nat :=
  if c.pending = "" then c.lineNumber + 1 else c.startLine

/-- The console when one more line of source text was counted. -/
def advance (c : Console) (pending prompt : String) : Console :=
  { c with lineNumber := c.lineNumber + 1, startLine := c.nextStart, pending, prompt }

/-- The pending text with one more line. -/
def extended (c : Console) (line : String) : String :=
  (joinLine c.pending (strip line)).1

variable {c : Console} {line : String}

theorem snd_joinLine (pending line : String) :
    (joinLine pending line).2 = isUnfinished (joinLine pending line).1 := by
  unfold joinLine
  dsimp only

theorem feed_of_blank (h : strip line = "") : c.feed line = (⟨.goesOn, ""⟩, c) := by
  unfold feed
  rw [if_pos h]

theorem feed_of_command {command : Command} (h : Command.ofWord? (strip line) = some command) :
    c.feed line = (answer command, c) := by
  have hblank : strip line ≠ "" := by
    intro hblank
    rw [hblank] at h
    cases h
  unfold feed
  simp only [if_neg hblank, h]

/-- A line that leaves a parenthesis open is kept. -/
theorem feed_of_unfinished (hline : IsSource line) (h : isUnfinished (c.extended line) = true) :
    c.feed line = (⟨.goesOn, ""⟩, c.advance (c.extended line) secondaryPrompt) := by
  obtain ⟨hblank, hcommand⟩ := hline
  rw [extended, ← snd_joinLine] at h
  have htake : (take (strip line)).run c =
      .ok () (c.advance (c.extended line) secondaryPrompt) := by
    unfold take
    simp only [EStateM.run_bind, EStateM.run_get, EStateM.run_set, h, if_true]
    rfl
  unfold feed
  simp only [if_neg hblank, hcommand, htake]

/-- A line that leaves none open is run with the lines before it. -/
theorem feed_of_finished (hline : IsSource line) (h : isUnfinished (c.extended line) = false) :
    c.feed line =
      match (Session.run (c.extended line) c.nextStart).run c.session with
      | .ok _ session => (⟨.goesOn, ""⟩, { c.advance "" c.primaryPrompt with session })
      | .error f session =>
        (⟨(settle f { c.advance "" c.primaryPrompt with session }).1, ""⟩,
          (settle f { c.advance "" c.primaryPrompt with session }).2) := by
  obtain ⟨hblank, hcommand⟩ := hline
  rw [extended, ← snd_joinLine] at h
  unfold feed take
  simp only [if_neg hblank, hcommand, EStateM.run_bind, EStateM.run_get, h, Bool.false_eq_true,
    if_false]
  unfold extended nextStart
  cases (Session.run _ _).run c.session with
  | ok _ session => simp only [EStateM.run_set]; rfl
  | error f session => simp only [EStateM.run_bind, EStateM.run_set, EStateM.run_throw]; rfl

/-! ### The end of a statement -/

/-- What becomes of a console whose failures do not end the program. -/
def outcomeOf (f : Failure) : Outcome :=
  if f.isMishap then .fails f else .goesOn

theorem settle_eq (f : Failure) (h : c.session.reporter.fatal = false) :
    settle f c = (outcomeOf f, { c with session := c.session.settled f }) := by
  unfold settle outcomeOf
  rw [Reporter.settle_failure, h]
  cases f <;> rfl

variable {m : Machine}

theorem feed_of_completed (hline : IsSource line) (h : isUnfinished (c.extended line) = false)
    (hwork : (Session.work c.session.showsTree (c.extended line)).run c.session.machine =
      .ok () m) :
    c.feed line = (⟨.goesOn, ""⟩,
      { c.advance "" c.primaryPrompt with session := c.session.afterSuccess m }) := by
  rw [feed_of_finished hline h, Session.run_eq, hwork]

theorem feed_of_failed {f : Failure} (hline : IsSource line)
    (h : isUnfinished (c.extended line) = false) (hfatal : c.session.reporter.fatal = false)
    (hwork : (Session.work c.session.showsTree (c.extended line)).run c.session.machine =
      .error f m) :
    c.feed line = (⟨outcomeOf f, ""⟩, { c.advance "" c.primaryPrompt with
      session := (c.session.afterFailure (c.extended line) c.nextStart f m).settled f }) := by
  have hafter : (c.session.afterFailure (c.extended line) c.nextStart f m).reporter.fatal = false :=
    Session.continues_afterFailure.fatal.trans hfatal
  rw [feed_of_finished hline h, Session.run_eq, hwork]
  dsimp only
  rw [settle_eq f hafter]

/-- What a line can do to a console: the reply to it, and the console after it. -/
inductive Feeds (c : Console) (line : String) : Reply × Console → Prop
  | blank (h : strip line = "") : Feeds c line (⟨.goesOn, ""⟩, c)
  | command {command : Command} (h : Command.ofWord? (strip line) = some command) :
    Feeds c line (answer command, c)
  | kept (hline : IsSource line) (hopen : isUnfinished (c.extended line) = true) :
    Feeds c line (⟨.goesOn, ""⟩, c.advance (c.extended line) secondaryPrompt)
  | completed {m : Machine} (hline : IsSource line) (hclosed : isUnfinished (c.extended line) = false)
    (hwork : (Session.work c.session.showsTree (c.extended line)).run c.session.machine =
      .ok () m) :
    Feeds c line (⟨.goesOn, ""⟩,
      { c.advance "" c.primaryPrompt with session := c.session.afterSuccess m })
  | failed {f : Failure} {m : Machine} (hline : IsSource line)
    (hclosed : isUnfinished (c.extended line) = false)
    (hwork : (Session.work c.session.showsTree (c.extended line)).run c.session.machine =
      .error f m) :
    Feeds c line (⟨outcomeOf f, ""⟩, { c.advance "" c.primaryPrompt with
      session := (c.session.afterFailure (c.extended line) c.nextStart f m).settled f })

theorem feeds (c : Console) (line : String) (hfatal : c.session.reporter.fatal = false) :
    Feeds c line (c.feed line) := by
  by_cases hblank : strip line = ""
  · rw [feed_of_blank hblank]
    exact .blank hblank
  · cases hcommand : Command.ofWord? (strip line) with
    | some command =>
      rw [feed_of_command hcommand]
      exact .command hcommand
    | none =>
      have hline : IsSource line := ⟨hblank, hcommand⟩
      cases hopen : isUnfinished (c.extended line) with
      | true =>
        rw [feed_of_unfinished hline hopen]
        exact .kept hline hopen
      | false =>
        cases hwork : (Session.work c.session.showsTree (c.extended line)).run
            c.session.machine with
        | ok _ m =>
          rw [feed_of_completed hline hopen hwork]
          exact .completed hline hopen hwork
        | error f m =>
          rw [feed_of_failed hline hopen hfatal hwork]
          exact .failed hline hopen hwork

end LoxLang.Console
