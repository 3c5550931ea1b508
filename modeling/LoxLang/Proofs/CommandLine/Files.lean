import LoxLang.CommandLine
import LoxLang.Proofs.Reporting.Work

/-!
Calls of the program with a file.

A file that is read becomes a session, and the work on its text decides how the call ends: with what
the work printed and no report if it completes (`ends_of_completed`), else with the exit code of the
failure and one report of it (`ends_of_failed`). So every outcome of scanning, parsing and executing
a file has its exit code, its output and at most one report (`run_file`).
-/

set_option autoImplicit false
set_option relaxedAutoImplicit false

namespace LoxLang

open Evaluation

namespace CommandLine

/-- A call ends with a code, with what it wrote and with reports in their order. Where notices are not
shown the reports are all that stands on the error stream. -/
structure Answer.Ends (a : Answer) (settings : Settings) (code : Nat) (out : String)
    (reports : List String) : Prop where
  code : a.code = code
  out : a.out = out
  writes : Writes settings.logLevel a.err reports
  err : Notice.info < settings.logLevel → a.err = String.join reports
  escaped : a.escaped = none

section

variable {settings : Settings} {a : Answer} {code : Nat} {out : String} {reports : List String}

theorem Answer.ends_of_writes (hcode : a.code = code) (hout : a.out = out)
    (hescaped : a.escaped = none) (hwrites : Writes settings.logLevel a.err reports) :
    a.Ends settings code out reports :=
  ⟨hcode, hout, hwrites, hwrites.eq_join, hescaped⟩

theorem Answer.Ends.after (h : a.Ends settings code out reports) (before : String) :
    (a.after before "").Ends settings code (before ++ out) reports := by
  refine Answer.ends_of_writes h.code (congrArg (before ++ ·) h.out) h.escaped ?_
  have herr : (a.after before "").err = a.err := String.empty_append
  rw [herr]
  exact h.writes

/-- A fatal failure ends the call with its code, after its report. -/
theorem ends_finish {r : Reporter} (hfatal : r.fatal = true) {f : Failure}
    (htexts : ((r.note f.notice).report f.entry f.isMishap).texts = reports) :
    (finish settings (some f) r).Ends settings f.exitCode "" reports := by
  have hfinish : finish settings (some f) r = { code := f.exitCode, err :=
      ((r.note f.notice).report f.entry f.isMishap).errorText settings.logLevel } := by
    unfold finish
    simp only [Reporter.settle_failure, hfatal, if_true]
  rw [hfinish, ← htexts]
  exact Answer.ends_of_writes rfl rfl rfl (Reporter.writes_errorText _ _)

end

/-! ### The session of a file -/

section

variable {settings : Settings} {path source : String} {m : Machine} {f : Failure}
  {readFile : String → Except Mishap String} {painter : Text.Painter}

/-- The reporter when nothing is known of a file but its path. -/
def fileReporter (settings : Settings) (painter : Text.Painter) (path : String) : Reporter :=
  ((Reporter.new true settings.colored painter).mention path).note (.loading path)

theorem unmarked_fileReporter (settings : Settings) (painter : Text.Painter) (path : String) :
    (fileReporter settings painter path).Unmarked := by
  have hmentioned : ((Reporter.new true settings.colored painter).mention path).Unmarked :=
    Reporter.unmarked_new.mention
  exact hmentioned

theorem texts_fileReporter (settings : Settings) (painter : Text.Painter) (path : String) :
    (fileReporter settings painter path).texts = [] :=
  Reporter.texts_note _ _

theorem prepare_eq (hpath : path ≠ Session.inputPath) :
    Session.prepare path false (.new true settings.colored painter) =
      fileReporter settings painter path := by
  unfold Session.prepare
  rw [if_neg hpath]
  rfl

theorem load_of_path (hpath : path ≠ Session.inputPath) :
    Session.load path false readFile = readFile path := by
  unfold Session.load
  rw [if_pos hpath]

/-- The session of a file before its run. -/
def fileSession (settings : Settings) (painter : Text.Painter) (path source : String) : Session :=
  .begin (.new true settings.colored painter) path false settings.showsTree source

theorem fileSession_reporter (hpath : path ≠ Session.inputPath) :
    (fileSession settings painter path source).reporter = fileReporter settings painter path :=
  prepare_eq hpath

theorem runFile_of_read (hpath : path ≠ Session.inputPath) (hread : readFile path = .ok source) :
    runFile settings painter path readFile =
      match (Session.run source 1).run (fileSession settings painter path source) with
      | .ok _ session => (finish settings none session.reporter).after session.output ""
      | .error f session =>
        (finish settings (some f) session.reporter).after session.output "" := by
  have hstart : Session.start (.new true settings.colored painter) path false
      settings.showsTree readFile = .ok (fileSession settings painter path source) := by
    rw [Session.start, load_of_path hpath, hread]
    rfl
  unfold runFile
  simp only [hstart]
  rfl

theorem ends_of_completed (hpath : path ≠ Session.inputPath) (hread : readFile path = .ok source)
    (hwork : (Session.work settings.showsTree source).run (.ofScopes default) = .ok () m) :
    (runFile settings painter path readFile).Ends settings 0 m.output [] := by
  let s := fileSession settings painter path source
  have hrun : (Session.run source 1).run s = .ok () (s.afterSuccess m) :=
    Session.run_of_completed source 1 m s hwork
  have hcontinues : s.Continues (s.afterSuccess m) m [] [] := Session.continues_afterSuccess m s
  have htexts : (s.afterSuccess m).reporter.texts = [] := by
    rw [hcontinues.texts, fileSession_reporter hpath, texts_fileReporter]
    rfl
  have hends : (finish settings none (s.afterSuccess m).reporter).Ends settings 0 "" [] := by
    rw [← htexts]
    exact Answer.ends_of_writes rfl rfl rfl (Reporter.writes_errorText _ _)
  have hafter := hends.after m.output
  rw [String.append_empty] at hafter
  rw [runFile_of_read hpath hread, hrun]
  exact hafter

theorem ends_of_failed (hpath : path ≠ Session.inputPath) (hread : readFile path = .ok source)
    (hwork : (Session.work settings.showsTree source).run (.ofScopes default) = .error f m) :
    (runFile settings painter path readFile).Ends settings f.exitCode m.output
      [f.report (painter.when settings.colored) path source 1] := by
  let s := fileSession settings painter path source
  have hrun : (Session.run source 1).run s = .error f (s.afterFailure source 1 f m) :=
    Session.run_of_failed source 1 f m s hwork
  have hcontinues : s.Continues ((s.afterFailure source 1 f m).settled f) m
      [f.report s.reporter.style path source 1] [f.entry] :=
    Session.continues_settled_afterFailure
      (by rw [fileSession_reporter hpath]; exact unmarked_fileReporter settings painter path)
  have htexts : ((s.afterFailure source 1 f m).settled f).reporter.texts =
      [f.report (painter.when settings.colored) path source 1] := by
    rw [hcontinues.texts, fileSession_reporter hpath, texts_fileReporter]
    rfl
  have hfatal : (s.afterFailure source 1 f m).reporter.fatal = true := by
    rw [Session.continues_afterFailure.fatal, fileSession_reporter hpath]
    rfl
  have hends : (finish settings (some f) (s.afterFailure source 1 f m).reporter).Ends settings
      f.exitCode "" [f.report (painter.when settings.colored) path source 1] :=
    ends_finish hfatal htexts
  have hafter := hends.after m.output
  rw [String.append_empty] at hafter
  have houtput : (s.afterFailure source 1 f m).output = m.output :=
    Session.continues_afterFailure.output_eq
  rw [runFile_of_read hpath hread, hrun, ← houtput]
  rwa [← houtput] at hafter

/-! ### The program of a file -/

theorem ends_of_malformed (hpath : path ≠ Session.inputPath) (hread : readFile path = .ok source)
    (hf : programOf source = .error f) : f.isMishap = false ∧
      (runFile settings painter path readFile).Ends settings 65 ""
        [f.report (painter.when settings.colored) path source 1] := by
  obtain ⟨m, hwork, -, hprinted⟩ :=
    run_of_effect_error (Session.effect_work_of_error hf settings.showsTree (.ofScopes default))
  have houtput : m.output = "" := by
    rw [Machine.output, hprinted]
    rfl
  have hends : (runFile settings painter path readFile).Ends settings f.exitCode m.output
      [f.report (painter.when settings.colored) path source 1] :=
    ends_of_failed hpath hread hwork
  rw [houtput] at hends
  rcases programOf_cases source with ⟨_, _, -, hok, -⟩ | ⟨d, herror, hcode, -⟩
  · cases hok.symm.trans hf
  · obtain rfl := Except.error.inj (herror.symm.trans hf)
    exact ⟨rfl, hcode ▸ hends⟩

variable {program : List Stmt}

theorem ends_of_shown (hpath : path ≠ Session.inputPath) (hread : readFile path = .ok source)
    (hprogram : programOf source = .ok program) (hshows : settings.showsTree = true) :
    ∃ text, (dump source).effect (.ofScopes default) = (.ok text, default, []) ∧
      (runFile settings painter path readFile).Ends settings 0
        (if text = "" then "" else text ++ "\n") [] := by
  obtain ⟨text, htext⟩ := exists_programText hprogram
  obtain ⟨m, hwork, -, hprinted⟩ :=
    run_of_effect_ok (Session.effect_work_dump hprogram htext (.ofScopes default))
  have houtput : m.output = if text = "" then "" else text ++ "\n" := by
    rw [Machine.output, hprinted]
    by_cases hempty : text = ""
    · rw [if_pos hempty, if_pos hempty]
      rfl
    · rw [if_neg hempty, if_neg hempty]
      simp [Machine.ofScopes]
  rw [← hshows] at hwork
  refine ⟨text, effect_dump hprogram htext _, ?_⟩
  rw [← houtput]
  exact ends_of_completed hpath hread hwork

theorem ends_of_executed (hpath : path ≠ Session.inputPath) (hread : readFile path = .ok source)
    (hprogram : programOf source = .ok program) (hexecutes : settings.showsTree = false)
    (hm : (executeAll program).run (.ofScopes default) = .ok () m) :
    (runFile settings painter path readFile).Ends settings 0 m.output [] := by
  have heffect := Session.effect_work_execute hprogram (.ofScopes default)
  rw [effect_of_run_ok hm] at heffect
  obtain ⟨m', hwork, -, hprinted⟩ := run_of_effect_ok heffect
  rw [← hexecutes] at hwork
  rw [Machine.output, ← hprinted]
  exact ends_of_completed hpath hread hwork

theorem ends_of_broken_off (hpath : path ≠ Session.inputPath) (hread : readFile path = .ok source)
    (hprogram : programOf source = .ok program) (hexecutes : settings.showsTree = false)
    (hm : (executeAll program).run (.ofScopes default) = .error f m) :
    (runFile settings painter path readFile).Ends settings 70 m.output
      [f.report (painter.when settings.colored) path source 1] := by
  have hcode : f.exitCode = 70 := by
    rcases programOf_cases source with ⟨_, _, -, hok, hbuilt⟩ | ⟨_, herror, -⟩
    · obtain rfl := Except.ok.inj (hok.symm.trans hprogram)
      exact exitCode_of_executeAll hbuilt hm
    · cases herror.symm.trans hprogram
  have heffect := Session.effect_work_execute hprogram (.ofScopes default)
  rw [effect_of_run_error hm] at heffect
  obtain ⟨m', hwork, -, hprinted⟩ := run_of_effect_error heffect
  rw [← hexecutes] at hwork
  rw [Machine.output, ← hprinted, ← hcode]
  exact ends_of_failed hpath hread hwork

/-! ### Files that are not read -/

theorem start_of_unread {e : Mishap} (hpath : path ≠ Session.inputPath)
    (hread : readFile path = .error e) :
    Session.start (.new true settings.colored painter) path false settings.showsTree readFile =
      .error e := by
  rw [Session.start, load_of_path hpath, hread]
  rfl

theorem ends_of_unopened {p : String} {fault : OpenFault} (hpath : path ≠ Session.inputPath)
    (hread : readFile path = .error (.cannotOpen p fault)) :
    (runFile settings painter path readFile).Ends settings noInputExit ""
      [openReport (.new true settings.colored painter) path fault] := by
  unfold runFile
  simp only [start_of_unread hpath hread, prepare_eq hpath]
  exact Answer.ends_of_writes rfl rfl rfl (Reporter.writes_errorText _ _)

/-- What else keeps a file from being read is a mishap like any other. -/
theorem ends_of_unread {e : Mishap} (hpath : path ≠ Session.inputPath)
    (hread : readFile path = .error e) (hopen : ∀ p fault, e ≠ .cannotOpen p fault) :
    (runFile settings painter path readFile).Ends settings Reporter.mishapExit ""
      [(Failure.mishap e).report (painter.when settings.colored) path "" 1] := by
  let r := fileReporter settings painter path
  have hunmarked : (r.note .reportingMishap).Unmarked := unmarked_fileReporter settings painter path
  have htexts : ((r.note .reportingMishap).report (Failure.mishap e).entry true).texts =
      [(Failure.mishap e).report (painter.when settings.colored) path "" 1] := by
    rw [Reporter.texts_report, Reporter.texts_note, texts_fileReporter]
    exact congrArg (fun text ↦ [text]) (hunmarked.reportText_eq true)
  have hmatch : runFile settings painter path readFile = finish settings (some (.mishap e)) r := by
    unfold runFile
    simp only [start_of_unread hpath hread, prepare_eq hpath]
    cases e with
    | cannotOpen p fault => exact absurd rfl (hopen p fault)
    | _ => rfl
  rw [hmatch]
  exact ends_finish rfl htexts

end

/-! ### Calls -/

/-- For all arguments that ask for a file, without colors. If the file has a text that cannot be read
as a program, the code is `65` and nothing is printed. If it can, a call for its tree prints the dump
of the text, if that is not empty, and any other call prints what the statements print: all of it, or
what they print before the failure that ends the call with `70`. A failure has one report, and there
is none without a failure. A file that cannot be opened has the code `66`, and one that cannot be read
for another reason ends the call as a mishap does. -/
theorem run_file {arguments : List String} {environment : List (String × String)}
    {settings : Settings} {path : String} (painter : Text.Painter) (input : String)
    (readFile : String → Except Mishap String)
    (hplan : plan arguments environment = .ok (settings, some path))
    (hcolor : settings.colored = false) (hpath : path ≠ Session.inputPath) :
    let a := run painter arguments environment input readFile
    (∀ s, readFile path = .ok s →
      (∀ f, programOf s = .error f → f.isMishap = false ∧
        a.Ends settings 65 "" [f.report .plain path s 1]) ∧
      ∀ program, programOf s = .ok program →
        (settings.showsTree = true →
          ∃ text, (dump s).effect (.ofScopes default) = (.ok text, default, []) ∧
            a.Ends settings 0 (if text = "" then "" else text ++ "\n") []) ∧
        (settings.showsTree = false →
          (∀ m, (executeAll program).run (.ofScopes default) = .ok () m →
            a.Ends settings 0 m.output []) ∧
          ∀ f m, (executeAll program).run (.ofScopes default) = .error f m →
            a.Ends settings 70 m.output [f.report .plain path s 1])) ∧
    ∀ e, readFile path = .error e →
      (∀ p fault, e = .cannotOpen p fault → a.Ends settings 66 ""
        ["error: '" ++ path ++ "' could not be opened: " ++ fault.text ++ "\n"]) ∧
      ((∀ p fault, e ≠ .cannotOpen p fault) → a.Ends settings 70 ""
        ["[internal] error: unknown error: '" ++ e.summary ++ "'\n"]) := by
  intro a
  have hrun : a = runFile settings painter path readFile := by
    show run painter arguments environment input readFile = _
    unfold run
    rw [hplan]
  have hstyle : painter.when settings.colored = .plain := by rw [hcolor, Text.Painter.when_false]
  have hplain (text : String) : (Reporter.new true settings.colored painter).alert text = text :=
    congrFun (congrFun (congrFun hstyle (some "red")) ["bold"]) text
  rw [hrun]
  refine ⟨fun s hread ↦ ⟨fun f hf ↦ ?_, fun program hprogram ↦
    ⟨ends_of_shown hpath hread hprogram, fun hexecutes ↦
      ⟨fun m ↦ ends_of_executed hpath hread hprogram hexecutes, fun f m hm ↦ ?_⟩⟩⟩,
    fun e hread ↦ ⟨fun p fault he ↦ ?_, fun hother ↦ ?_⟩⟩
  · have hends : f.isMishap = false ∧ (runFile settings painter path readFile).Ends settings 65 ""
        [f.report (painter.when settings.colored) path s 1] :=
      ends_of_malformed hpath hread hf
    refine hends.imp_right fun hends ↦ ?_
    rwa [hstyle] at hends
  · rw [← hstyle]
    exact ends_of_broken_off hpath hread hprogram hexecutes hm
  · subst he
    have hends : (runFile settings painter path readFile).Ends settings noInputExit ""
        [openReport (.new true settings.colored painter) path fault] :=
      ends_of_unopened hpath hread
    rwa [openReport, hplain] at hends
  · have hends : (runFile settings painter path readFile).Ends settings Reporter.mishapExit ""
        [(Failure.mishap e).report (painter.when settings.colored) path "" 1] :=
      ends_of_unread hpath hread hother
    rw [hstyle, Failure.report_mishap] at hends
    exact hends

/-- The second line of a file divides by zero, after the first one printed. A call for the tree of the
file prints it and evaluates nothing. -/
theorem run_file_of_division :
    let readFile : String → Except Mishap String := fun _ ↦ .ok "print nil;\nprint 2 / 0;"
    let a := run .plain ["--no-color", "t.lox"] [] "" readFile
    let b := run .plain ["--no-color", "--ast", "t.lox"] [] "" readFile
    (a.code = 70 ∧ a.out = "nil\n" ∧ a.err = "  File 't.lox', line 2:\n    print 2 / 0;\n" ++
      "error: [line 2] Error '/': Division by zero.\n") ∧
    b.code = 0 ∧ b.out = "(print nil)\n(print (/ 2 0))\n" ∧ b.err = "" := by
  intro readFile a b
  let source := "print nil;\nprint 2 / 0;"
  let slash : Token := ⟨.slash, "/", .nil, 2⟩
  let program : List Stmt := [.print (.literal .nil),
    .print (.binary (.literal (.integer 2)) slash (.literal (.integer 0)))]
  have hprogram : programOf source = .ok program := by decide +kernel
  constructor
  · have hplan : plan ["--no-color", "t.lox"] [] =
        .ok (⟨30, false, false, .text Console.defaultPrompt⟩, some "t.lox") := rfl
    have hexecute : (executeAll program).run (.ofScopes default) =
        .error (.diagnostic (.divisionByZero slash)) ⟨default, ["nil"], []⟩ := rfl
    obtain ⟨hread, -⟩ := run_file .plain "" readFile hplan rfl (by decide)
    obtain ⟨-, hexecuted⟩ := (hread source rfl).2 program hprogram
    have hends := (hexecuted rfl).2 _ _ hexecute
    refine ⟨hends.code, hends.out, (hends.err (by decide)).trans ?_⟩
    decide +kernel
  · have hplan : plan ["--no-color", "--ast", "t.lox"] [] =
        .ok (⟨30, false, true, .text Console.defaultPrompt⟩, some "t.lox") := rfl
    have hdump : (dump source).effect (.ofScopes default) =
        (.ok "(print nil)\n(print (/ 2 0))", default, []) := by decide +kernel
    obtain ⟨hread, -⟩ := run_file .plain "" readFile hplan rfl (by decide)
    obtain ⟨text, htext, hends⟩ := ((hread source rfl).2 program hprogram).1 rfl
    obtain rfl : "(print nil)\n(print (/ 2 0))" = text :=
      Except.ok.inj (congrArg Prod.fst (hdump.symm.trans htext))
    exact ⟨hends.code, hends.out.trans (by decide), hends.err (by decide)⟩

end CommandLine

end LoxLang
