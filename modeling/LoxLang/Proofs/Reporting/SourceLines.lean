import LoxLang.Proofs.Reporting.Work

/-!
The source lines that a session leaves with its reporter.

The lexer separates lines by newlines, and the lines of a text end at other line breaks too. Where
up to the line of a diagnostic there are no others, but for carriage returns at the ends of lines,
both number the lines alike, and the line that is left is that of the diagnostic (`run_registers`).
A diagnostic at the empty end behind the last newline leaves no line, and the one that was there
before stays.
-/

set_option autoImplicit false
set_option relaxedAutoImplicit false

namespace LoxLang

open Source Piece Text

/-! ### Lines that are numbered alike -/

/-- A line without a line break, but for a carriage return at its end. -/
def Text.Smooth (line : List Char) : Prop :=
  ∃ body, (∀ c ∈ body, isLineBreak c = false) ∧ (line = body ∨ line = body ++ ['\r'])

theorem length_splitOn (cs : List Char) : (cs.splitOn '\n').length = lineAfter cs := by
  induction cs with
  | nil => rfl
  | cons c cs ih =>
    rw [List.splitOn_cons_eq_if_modifyHead, lineAfter, newlines, List.count_cons]
    cases c == '\n' with
    | true =>
      rw [if_pos rfl, if_pos rfl, List.length_cons, ih, lineAfter, newlines]
      omega
    | false =>
      rw [if_neg (by simp), if_neg (by simp), List.length_modifyHead, ih]
      rfl

theorem strip_concat_return (body : List Char) :
    strip (String.ofList (body ++ ['\r'])) = strip (String.ofList body) := by
  have hblank : isBlank '\r' = true := by decide
  have htrim : trim isBlank (body ++ ['\r']) = trim isBlank body := by
    unfold trim
    rw [List.dropWhile_append]
    cases hempty : (body.dropWhile isBlank).isEmpty with
    | true =>
      rw [if_pos rfl, List.isEmpty_iff.mp hempty, List.dropWhile_cons_of_pos hblank]
      rfl
    | false =>
      rw [if_neg (by simp), List.reverse_append, List.reverse_singleton, List.singleton_append,
        List.dropWhile_cons_of_pos hblank]
  rw [strip, strip, String.toList_ofList, String.toList_ofList, htrim]

/-- A smooth line is shown without the carriage return at its end, and the blanks around it are left
out in any case. -/
theorem Text.Smooth.exists_shown {line : List Char} (h : Smooth line) :
    ∃ shown, strip (String.ofList shown) = strip (String.ofList line) ∧
      (∀ rest, linesFrom [] (line ++ '\n' :: rest) = shown :: linesFrom [] rest) ∧
      (line ≠ [] → linesFrom [] line = [shown]) := by
  obtain ⟨body, hbody, rfl | rfl⟩ := h
  · refine ⟨_, rfl, fun rest ↦ ?_, linesFrom_unbroken hbody⟩
    rw [linesFrom_append hbody, List.append_nil]
    show List.reverse (List.reverse _) :: linesFrom [] rest = _
    rw [List.reverse_reverse]
  · refine ⟨body, (strip_concat_return body).symm, fun rest ↦ ?_, fun _ ↦ ?_⟩
    · rw [List.append_assoc, linesFrom_append hbody, List.append_nil]
      show body.reverse.reverse :: linesFrom [] rest = _
      rw [List.reverse_reverse]
    · rw [linesFrom_append hbody, List.append_nil]
      show [body.reverse.reverse] = [body]
      rw [List.reverse_reverse]

/-- Behind smooth lines the text has the same line as between newlines, unless that is the empty
end behind the last newline. -/
theorem getElem?_linesFrom {cs line : List Char} {k : Nat}
    (h : ∀ row ∈ (cs.splitOn '\n').take (k + 1), Smooth row)
    (hline : (cs.splitOn '\n')[k]? = some line) :
    (∃ shown, (linesFrom [] cs)[k]? = some shown ∧
      strip (String.ofList shown) = strip (String.ofList line)) ∨
    (linesFrom [] cs)[k]? = none ∧ line = [] ∧ k + 1 = (cs.splitOn '\n').length := by
  induction k generalizing cs with
  | zero =>
    by_cases hmem : '\n' ∈ cs
    · obtain ⟨row, rest, rfl, hrow⟩ := List.eq_append_cons_of_mem hmem
      rw [List.splitOn_append_cons_self_of_not_mem hrow] at h hline
      obtain rfl : row = line := by simpa using hline
      obtain ⟨shown, hstrip, hlines, -⟩ := (h row (by simp)).exists_shown
      exact .inl ⟨shown, by rw [hlines]; rfl, hstrip⟩
    · rw [List.splitOn_eq_singleton hmem] at h hline ⊢
      obtain rfl : cs = line := by simpa using hline
      by_cases hne : cs = []
      · exact .inr ⟨by rw [hne]; rfl, hne, rfl⟩
      · obtain ⟨shown, hstrip, -, hlines⟩ := (h cs (by simp)).exists_shown
        exact .inl ⟨shown, by rw [hlines hne]; rfl, hstrip⟩
  | succ k ih =>
    by_cases hmem : '\n' ∈ cs
    · obtain ⟨row, rest, rfl, hrow⟩ := List.eq_append_cons_of_mem hmem
      rw [List.splitOn_append_cons_self_of_not_mem hrow] at h hline ⊢
      rw [List.take_succ_cons, List.forall_mem_cons] at h
      obtain ⟨shown, -, hlines, -⟩ := h.1.exists_shown
      rw [hlines, List.getElem?_cons_succ, List.length_cons]
      rw [List.getElem?_cons_succ] at hline
      exact (ih h.2 hline).imp id fun ⟨hnone, hnil, hlength⟩ ↦ ⟨hnone, hnil, by omega⟩
    · rw [List.splitOn_eq_singleton hmem] at hline
      simp at hline

namespace Session

/-! ### Runs one after another -/

/-- The session after a run whose failure, if it failed, was caught and not reported. -/
def afterRun (source : String) (firstLine : Int) (s : Session) : Session :=
  match (run source firstLine).run s with
  | .ok _ s' => s'
  | .error _ s' => s'

/-- The session after runs of texts, each with the line on which it begins. -/
def afterRuns (runs : List (String × Int)) (s : Session) : Session :=
  runs.foldl (fun s text ↦ s.afterRun text.1 text.2) s

/-- The source line that the reporter knows for the path of the session, if it knows the path. -/
def entry (s : Session) : Option (Option SourceLine) :=
  s.reporter.traceback.lookup s.path

theorem Continues.entry_eq {s s' : Session} {m : Machine} {texts entries : List String}
    (h : s.Continues s' m texts entries) :
    s'.entry = s'.reporter.traceback.lookup s.path := by
  rw [entry, h.path]

/-- Where the lines before are smooth, a diagnostic speaks of the line on which it stands, or of
none at the empty end behind the last newline. -/
theorem lineAt?_of_smooth {source : String} {d : Diagnostic} {line : List Char} (firstLine : Int)
    (hd : 0 < d.line)
    (h : ∀ row ∈ (source.toList.splitOn '\n').take d.line.toNat, Smooth row)
    (hline : (source.toList.splitOn '\n')[d.line.toNat - 1]? = some line) :
    lineAt? source firstLine d =
      some ⟨strip (String.ofList line), firstLine + d.line - 1⟩ ∨
    lineAt? source firstLine d = none ∧ line = [] ∧
      d.line.toNat = (source.toList.splitOn '\n').length := by
  obtain ⟨k, hk⟩ : ∃ k, d.line.toNat = k + 1 := ⟨d.line.toNat - 1, by omega⟩
  have hindex : d.line.toNat - 1 = k := by omega
  rw [hk] at h
  rw [hindex] at hline
  unfold lineAt?
  rw [if_pos hd, hindex, lines, List.getElem?_map]
  rcases getElem?_linesFrom h hline with ⟨shown, hshown, hstrip⟩ | ⟨hnone, hnil, hlength⟩
  · refine .inl ?_
    rw [hshown, ← hstrip]
    rfl
  · refine .inr ⟨?_, hnil, by omega⟩
    rw [hnone]
    rfl

/-- After any runs, one that completes leaves no line. One that fails with a diagnostic leaves the
line with its number among those that end at any line break, if the text has so many. That is the
line on which the diagnostic stands if the lines up to it are smooth; a blank line is left as an
empty one, but at the empty end behind the last newline what was left before stays. So it does where
a run fails by a mishap. -/
theorem run_registers (r : Reporter) (path : String) (interactive showsTree : Bool) (text : String)
    (runs : List (String × Int)) (source : String) (firstLine : Int) :
    let s := (begin r path interactive showsTree text).afterRuns runs
    (∀ s', (run source firstLine).run s = .ok () s' → s'.entry = some none) ∧
    (∀ e s', (run source firstLine).run s = .error (.mishap e) s' → s'.entry = s.entry) ∧
    ∀ d s', (run source firstLine).run s = .error (.diagnostic d) s' →
      0 < d.line ∧
      s'.entry = ((lines source)[d.line.toNat - 1]?.map fun row ↦
        some ⟨strip row, firstLine + d.line - 1⟩).or s.entry ∧
      ∃ line, (source.toList.splitOn '\n')[d.line.toNat - 1]? = some line ∧
        ((∀ row ∈ (source.toList.splitOn '\n').take d.line.toNat, Smooth row) →
          (strip (String.ofList line) ≠ "" → s'.entry =
            some (some ⟨strip (String.ofList line), firstLine + d.line - 1⟩)) ∧
          (strip (String.ofList line) = "" →
            s'.entry = some (some ⟨"", firstLine + d.line - 1⟩) ∨
            line = [] ∧ d.line.toNat = (source.toList.splitOn '\n').length ∧
              s'.entry = s.entry)) := by
  intro s
  rw [run_eq]
  cases hwork : (work s.showsTree source).run s.machine with
  | ok _ m =>
    have hentry := (continues_afterSuccess m s).entry_eq.trans lookup_afterSuccess
    refine ⟨fun s' hrun ↦ ?_, fun e s' hrun ↦ ?_, fun d s' hrun ↦ ?_⟩
    · cases hrun
      exact hentry
    · cases hrun
    · cases hrun
  | error f m =>
    refine ⟨fun s' hrun ↦ ?_, fun e s' hrun ↦ ?_, fun d s' hrun ↦ ?_⟩
    · cases hrun
    · cases hrun
      rfl
    · cases hrun
      obtain ⟨hfirst, hlast⟩ := bounds_of_work hwork
      have hpositive : 0 < d.line := hfirst
      have hindex : d.line.toNat - 1 < (source.toList.splitOn '\n').length := by
        rw [length_splitOn]
        omega
      have hentry := continues_afterFailure.entry_eq.trans
        (lookup_afterFailure source firstLine d m s)
      refine ⟨hpositive, ?_, _, List.getElem?_eq_getElem hindex, fun hsmooth ↦ ?_⟩
      · rw [hentry, lineAt?, if_pos hpositive]
        cases (lines source)[d.line.toNat - 1]? <;> rfl
      rcases lineAt?_of_smooth firstLine hpositive hsmooth (List.getElem?_eq_getElem hindex) with
        hshown | ⟨hnone, hnil, hlength⟩
      · rw [hshown] at hentry
        exact ⟨fun _ ↦ hentry, fun hblank ↦ .inl (by rw [hentry, hblank])⟩
      · rw [hnone] at hentry
        rw [hnil]
        exact ⟨fun hne ↦ absurd rfl hne, fun _ ↦ .inr ⟨rfl, hlength, hentry⟩⟩

/-- An interactive session in which a run has failed. -/
def failedBefore : Session :=
  (begin (.new false false .plain) inputPath true false "").afterRuns [("print x;", 1)]

theorem exists_of_failed {result : EStateM.Result Failure Session Unit}
    {p : Diagnostic → Session → Prop} [∀ d s, Decidable (p d s)]
    (h : (match result with | .error (.diagnostic d) s => decide (p d s) | _ => false) = true) :
    ∃ d s, result = .error (.diagnostic d) s ∧ p d s := by
  split at h
  · next d s => exact ⟨d, s, rfl, of_decide_eq_true h⟩
  · cases h

/-- The second line of a text with a carriage return before its newline. -/
theorem run_registers_second_line : ∃ d s',
    (run "var a = 1;\r\n  print y;\n" 5).run failedBefore = .error (.diagnostic d) s' ∧
      s'.entry = some (some ⟨"print y;", 6⟩) := by
  obtain ⟨d, s', hrun, hline⟩ : ∃ d s',
      (run "var a = 1;\r\n  print y;\n" 5).run failedBefore = .error (.diagnostic d) s' ∧
        d.line = 2 := exists_of_failed (by decide +kernel)
  refine ⟨d, s', hrun, ?_⟩
  obtain ⟨-, -, hregisters⟩ := run_registers (.new false false .plain) inputPath true false ""
    [("print x;", 1)] "var a = 1;\r\n  print y;\n" 5
  obtain ⟨-, -, line, hentry, hregisters⟩ := hregisters d s' hrun
  have hrows : "var a = 1;\r\n  print y;\n".toList.splitOn '\n' =
      ["var a = 1;\r".toList, "  print y;".toList, []] := by decide +kernel
  have hunbroken (cs : List Char) (h : cs.all (!isLineBreak ·) = true) :
      ∀ c ∈ cs, isLineBreak c = false := by simpa using h
  have hsmooth : ∀ row ∈ ["var a = 1;\r".toList, "  print y;".toList], Smooth row := by
    simp only [List.forall_mem_cons]
    exact ⟨⟨"var a = 1;".toList, hunbroken _ (by decide), .inr rfl⟩,
      ⟨_, hunbroken _ (by decide), .inl rfl⟩, by simp⟩
  rw [hline, hrows] at hentry hregisters
  obtain rfl : "  print y;".toList = line := by simpa using hentry
  exact (hregisters hsmooth).1 (by decide +kernel)

/-- Where a run fails at the empty end behind its last newline, the line of an earlier failure stays
with the reporter. Where a line before has another line break, the line that is left is not the one
on which the diagnostic stands. -/
theorem entry_of_other_line :
    (∃ d s', (run "print 1\n" 1).run failedBefore = .error (.diagnostic d) s' ∧ d.line = 2 ∧
      s'.entry = some (some ⟨"print x;", 1⟩)) ∧
    ("print 1\n".toList.splitOn '\n')[1]? = some [] ∧
    (∃ d s', (run "// a\x0cb\nprint x;" 1).run
        (begin (.new false false .plain) inputPath true false "") = .error (.diagnostic d) s' ∧
      d.line = 2 ∧ s'.entry = some (some ⟨"b", 2⟩)) ∧
    ("// a\x0cb\nprint x;".toList.splitOn '\n')[1]? = some "print x;".toList :=
  ⟨exists_of_failed (by decide +kernel), by decide +kernel, exists_of_failed (by decide +kernel),
    by decide +kernel⟩

end Session

end LoxLang
