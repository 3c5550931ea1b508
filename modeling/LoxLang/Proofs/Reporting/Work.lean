import LoxLang.Proofs.Lexing.Lines
import LoxLang.Proofs.Printing.Identity
import LoxLang.Proofs.Reporting.Reports
import LoxLang.Proofs.Running.Endings

/-!
The work of a session.

The work on a text does nothing if the text cannot be read, and else it prints the dump of the text
or executes its statements (`effect_work_of_error`, `effect_work_dump`, `effect_work_execute`).
Reading fails with another code than executing (`programOf_cases`, `exitCode_of_executeAll`). All
tokens of a text stand on lines that it has, and so does whatever is wrong with it
(`bounds_of_work`). If it has no line break, the report of its failure shows all of it
(`lineAt?_of_work`).
-/

set_option autoImplicit false
set_option relaxedAutoImplicit false

namespace LoxLang

open Source Piece Text Evaluation

variable {source : String} {tokens : List Token} {program : List Stmt} {m m' : Machine}
  {f : Failure} {d : Diagnostic}

/-! ### Reading -/

/-- Tokens stand on lines of the text. -/
theorem bounds_of_mem_tokenize {t : Token} (htokens : tokenize source = .ok tokens)
    (ht : t ∈ tokens) : 1 ≤ t.line ∧ t.line ≤ lineAfter source.toList := by
  rcases tokenize_cases source with ⟨ps, hspell, -, -, hok⟩ | ⟨_, _, _, -, -, -, -, herror⟩
  · obtain rfl := Except.ok.inj (htokens.symm.trans hok)
    rcases List.mem_append.mp ht with ht | ht
    · rw [← hspell]
      exact bounds_of_mem_tokensFrom ht
    · obtain rfl := List.mem_singleton.mp ht
      refine ⟨?_, Int.le_refl _⟩
      show (1 : Int) ≤ ↑(1 + newlines source.toList)
      omega
  · cases htokens.symm.trans herror

/-- A text is read to trees of its tokens, or it is malformed. -/
theorem programOf_cases (source : String) :
    (∃ tokens program, tokenize source = .ok tokens ∧ programOf source = .ok program ∧
      ∀ s ∈ program, s.BuiltFrom tokens) ∨
    ∃ d : Diagnostic, programOf source = .error (.diagnostic d) ∧ d.exitCode = 65 ∧
      1 ≤ d.line ∧ d.line ≤ lineAfter source.toList := by
  rcases tokenize_cases source with ⟨ps, -, -, -, htokens⟩ |
    ⟨ps, rest, d, hspell, -, -, hstuck, htokens⟩
  · have hread : programOf source = parse (tokensFrom 1 ps ++ [endToken source.toList]) := by
      rw [programOf, htokens]
      rfl
    rcases parse_cases_of_tokenize htokens with ⟨program, hparse, hbuilt⟩ |
      ⟨t, ht, fault, wording, expected, hparse⟩
    · exact .inl ⟨_, program, htokens, hread.trans hparse, hbuilt⟩
    · exact .inr ⟨_, hread.trans hparse, rfl, bounds_of_mem_tokenize htokens ht⟩
  · refine .inr ⟨d, by rw [programOf, htokens]; rfl, ?_, ?_⟩
    · obtain ⟨fault, hcause⟩ := hstuck.lexical
      rw [Diagnostic.exitCode, hcause]
      rfl
    · have hbounds := hstuck.bounds
      rw [← hspell, lineAfter_append, lineAfter]
      omega

/-! ### Executing -/

theorem exitCode_of_executeAll (hbuilt : ∀ s ∈ program, s.BuiltFrom tokens)
    (h : (executeAll program).run m = .error f m') : f.exitCode = 70 := by
  obtain ⟨done, s, rest, m₁, rfl, -, hs⟩ := executeAll_eq_error h
  have hbuilt : s.BuiltFrom tokens := hbuilt s (by simp)
  rcases hbuilt.fails hs with hfailure | ⟨rfl, -⟩
  · cases hfailure with
    | undefinedVariable | divisionByZero => rfl
  · rfl

theorem exists_token_of_executeAll (hbuilt : ∀ s ∈ program, s.BuiltFrom tokens)
    (h : (executeAll program).run m = .error (.diagnostic d) m') :
    ∃ t ∈ tokens, d.line = t.line := by
  obtain ⟨done, s, rest, m₁, rfl, -, hs⟩ := executeAll_eq_error h
  have hbuilt : s.BuiltFrom tokens := hbuilt s (by simp)
  rcases hbuilt.fails hs with hfailure | ⟨hmishap, -⟩
  · cases hfailure with
    | undefinedVariable ht | divisionByZero ht => exact ⟨_, ht, rfl⟩
  · cases hmishap

/-! ### The work on a text -/

namespace Evaluation

variable {α : Type} {x : Evaluation α} {scopes : Chain} {printed : List String}

theorem run_of_effect_ok {a : α} (h : x.effect m = (.ok a, scopes, printed)) :
    ∃ m', x.run m = .ok a m' ∧ m'.scopes = scopes ∧ m'.printed = printed := by
  unfold effect at h
  cases hrun : x.run m with
  | ok b m' =>
    rw [hrun] at h
    cases h
    exact ⟨m', rfl, rfl, rfl⟩
  | error f m' =>
    rw [hrun] at h
    cases h

theorem run_of_effect_error (h : x.effect m = (.error f, scopes, printed)) :
    ∃ m', x.run m = .error f m' ∧ m'.scopes = scopes ∧ m'.printed = printed := by
  unfold effect at h
  cases hrun : x.run m with
  | ok b m' =>
    rw [hrun] at h
    cases h
  | error f' m' =>
    rw [hrun] at h
    cases h
    exact ⟨m', rfl, rfl, rfl⟩

theorem effect_of_run_ok {a : α} (h : x.run m = .ok a m') :
    x.effect m = (.ok a, m'.scopes, m'.printed) := by
  rw [effect, h]

theorem effect_of_run_error (h : x.run m = .error f m') :
    x.effect m = (.error f, m'.scopes, m'.printed) := by
  rw [effect, h]

end Evaluation

/-- A text that cannot be read has no dump. -/
theorem effect_dump_of_error (h : programOf source = .error f) (m : Machine) :
    (dump source).effect m = (.error f, m.scopes, m.printed) := by
  unfold programOf at h
  cases htokens : tokenize source with
  | error f' =>
    rw [htokens] at h
    obtain rfl : f' = f := Except.error.inj h
    simp only [effect, dump, readProgram, htokens, failOn, bind_assoc]
    rfl
  | ok tokens =>
    rw [htokens] at h
    have hparse : parse tokens = .error f := h
    simp only [effect, dump, readProgram, htokens, hparse, failOn, bind_assoc, pure_bind]
    rfl

theorem exists_programText (h : programOf source = .ok program) :
    ∃ text, programText program = .ok text := by
  have hplain : ∀ s ∈ program.map Stmt.nameOverflow, s.Plain := by
    simpa using plain_of_programOf h
  exact ⟨_, (programText_nameOverflow program).symm.trans (programText_eq hplain)⟩

namespace Session

theorem effect_work_of_error (h : programOf source = .error f) (showsTree : Bool) (m : Machine) :
    (work showsTree source).effect m = (.error f, m.scopes, m.printed) := by
  cases showsTree with
  | false => exact (run_same_of_error h).effect_eq m
  | true =>
    obtain ⟨m', hrun, hscopes, hprinted⟩ := run_of_effect_error (effect_dump_of_error h m)
    unfold work effect
    rw [if_pos rfl, EStateM.run_bind, hrun, ← hscopes, ← hprinted]

theorem effect_work_dump (h : programOf source = .ok program) {text : String}
    (htext : programText program = .ok text) (m : Machine) :
    (work true source).effect m =
      (.ok (), m.scopes, if text = "" then m.printed else text :: m.printed) := by
  obtain ⟨m', hrun, hscopes, hprinted⟩ := run_of_effect_ok (effect_dump h htext m)
  unfold work effect
  rw [if_pos rfl, EStateM.run_bind, hrun, ← hscopes, ← hprinted]
  dsimp only
  by_cases hempty : text = ""
  · rw [if_neg (not_not.mpr hempty), if_pos hempty]
    rfl
  · rw [if_pos hempty, if_neg hempty]
    rfl

theorem effect_work_execute (h : programOf source = .ok program) (m : Machine) :
    (work false source).effect m = (executeAll program).effect m :=
  (run_same_of_ok h).effect_eq m

/-- What is wrong with a text stands on a line of it. -/
theorem bounds_of_work {showsTree : Bool}
    (h : (work showsTree source).run m = .error (.diagnostic d) m') :
    1 ≤ d.line ∧ d.line ≤ lineAfter source.toList := by
  have heffect := effect_of_run_error h
  rcases programOf_cases source with ⟨tokens, program, htokens, hread, hbuilt⟩ |
    ⟨d', hread, -, hbounds⟩
  · cases showsTree with
    | false =>
      rw [effect_work_execute hread] at heffect
      obtain ⟨_, hexecute, -, -⟩ := run_of_effect_error heffect
      obtain ⟨t, ht, hd⟩ := exists_token_of_executeAll hbuilt hexecute
      rw [hd]
      exact bounds_of_mem_tokenize htokens ht
    | true =>
      obtain ⟨text, htext⟩ := exists_programText hread
      rw [effect_work_dump hread htext] at heffect
      cases heffect
  · rw [effect_work_of_error hread] at heffect
    have hsame : d' = d := Failure.diagnostic.inj (Except.error.inj (congrArg Prod.fst heffect))
    exact hsame ▸ hbounds

end Session

/-! ### Texts of one line -/

/-- A text without a line break, and not empty. -/
structure Text.IsLine (text : String) : Prop where
  ne_empty : text ≠ ""
  unbroken : ∀ c ∈ text.toList, isLineBreak c = false

theorem linesFrom_append {body : List Char} (h : ∀ c ∈ body, isLineBreak c = false)
    (begun cs : List Char) : linesFrom begun (body ++ cs) = linesFrom (body.reverse ++ begun) cs := by
  induction body generalizing begun with
  | nil => rfl
  | cons c body ih =>
    obtain ⟨hc, hbody⟩ := List.forall_mem_cons.mp h
    have hreturn : c ≠ '\r' := by
      rintro rfl
      exact absurd hc (by decide)
    have hstep : linesFrom begun (c :: (body ++ cs)) = linesFrom (c :: begun) (body ++ cs) := by
      rw [linesFrom, if_neg (by simp [hc])]
      simp [hreturn]
    rw [List.cons_append, hstep, ih hbody, List.reverse_cons, List.append_assoc]
    rfl

theorem linesFrom_unbroken {cs : List Char} (h : ∀ c ∈ cs, isLineBreak c = false) (hne : cs ≠ []) :
    linesFrom [] cs = [cs] := by
  have hempty : (cs.reverse ++ []).isEmpty = false := by simpa using hne
  have hlines := linesFrom_append h [] []
  rw [List.append_nil] at hlines
  rw [hlines, linesFrom, hempty, List.append_nil, List.reverse_reverse]
  rfl

theorem Text.IsLine.lines_eq {text : String} (h : IsLine text) : lines text = [text] := by
  have hne : text.toList ≠ [] := fun hempty ↦ h.ne_empty (by simpa using hempty)
  have hone : linesFrom [] text.toList = [text.toList] := linesFrom_unbroken h.unbroken hne
  rw [lines, hone, List.map_singleton, String.ofList_toList]

/-- The report of what is wrong with a line shows the whole line. -/
theorem lineAt?_of_work {text : String} {showsTree : Bool} {start : Int} (hline : Text.IsLine text)
    (hstrip : strip text = text)
    (h : (Session.work showsTree text).run m = .error (.diagnostic d) m') :
    Session.lineAt? text start d = some ⟨text, start⟩ := by
  have hnewline : '\n' ∉ text.toList := fun hmem ↦ absurd (hline.unbroken _ hmem) (by decide)
  have hnone : newlines text.toList = 0 := List.count_eq_zero.mpr hnewline
  have hone : d.line = 1 := by
    have hbounds := Session.bounds_of_work h
    rw [lineAfter, hnone] at hbounds
    omega
  unfold Session.lineAt?
  rw [hone, hline.lines_eq]
  simp [hstrip]

end LoxLang
