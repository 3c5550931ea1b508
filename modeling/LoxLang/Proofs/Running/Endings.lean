import LoxLang.Proofs.Lexing.Seam
import LoxLang.Proofs.Parsing.Completeness
import LoxLang.Proofs.Running.Failures
import LoxLang.Proofs.Running.Likeness
import Mathlib.Data.Nat.Digits.Lemmas

/-!
How a run can end.

No text drives the lexer or the parser beyond its end, and no tree that they build has a foreign
node. So a run completes, or it ends with a diagnostic at a token of the text, or it prints a whole
number that is too long (`run_completes_or_fails`).
-/

set_option autoImplicit false
set_option relaxedAutoImplicit false

namespace LoxLang

open Token.Kind Evaluation

variable {source : String} {m m' : Machine} {f : Failure}

/-! ### Diagnostics at a token -/

/-- The diagnostic has the line and the lexeme of the token; the end of the text has no lexeme. -/
structure Diagnostic.SpeaksOf (d : Diagnostic) (t : Token) : Prop where
  line : d.line = t.line
  lexeme : d.lexeme = if t.kind = endOfText then none else some t.lexeme

/-- Of all tokens of a text only the one that ends it is empty. -/
theorem lexeme_eq_empty_iff {tokens : List Token} (htokens : Source.tokenize source = .ok tokens)
    {t : Token} (ht : t ∈ tokens) : t.lexeme = "" ↔ t.kind = endOfText := by
  rcases Source.tokenize_cases source with ⟨ps, -, -, -, hok⟩ | ⟨_, _, _, -, -, -, -, herror⟩
  · obtain rfl := Except.ok.inj (htokens.symm.trans hok)
    rcases List.mem_append.mp ht with ht | ht
    · have hkind : t.kind ≠ endOfText := Source.Piece.unended_tokensFrom 1 ps t ht
      obtain ⟨p, -, -, hlexeme⟩ := Source.Piece.exists_of_mem_tokensFrom ht
      have hne : t.lexeme ≠ "" := by
        rw [hlexeme]
        intro hempty
        exact p.spells.ne_nil (String.ofList_eq_empty_iff.mp hempty)
      exact iff_of_false hne hkind
    · obtain rfl := List.mem_singleton.mp ht
      exact iff_of_true rfl rfl
  · cases htokens.symm.trans herror

theorem Diagnostic.speaksOf_atToken {tokens : List Token}
    (htokens : Source.tokenize source = .ok tokens) {t : Token} (ht : t ∈ tokens) (cause : Cause) :
    (Diagnostic.atToken cause t).SpeaksOf t := by
  refine ⟨rfl, ?_⟩
  show (if t.lexeme = "" then none else some t.lexeme) = _
  simp only [lexeme_eq_empty_iff htokens ht]

/-! ### Runs -/

/-- How a run of a source text can fail. The machine is `m` before the run, and the failure leaves
`m'`. -/
inductive RunFailure (source : String) (m m' : Machine) : Failure → Prop
  | lexical {d : Diagnostic} {fault : Diagnostic.LexicalFault}
    (htokens : Source.tokenize source = .error (.diagnostic d))
    (hcause : d.cause = .lexical fault) : RunFailure source m m' (.diagnostic d)
  | grammar {tokens : List Token} {t : Token} {d : Diagnostic} {fault : Diagnostic.GrammarFault}
    {wording : String} {expected : Option String} (htokens : Source.tokenize source = .ok tokens)
    (hparse : parse tokens = .error (.diagnostic d))
    (hcause : d.cause = .grammar fault wording expected) (ht : t ∈ tokens) (hd : d.SpeaksOf t) :
    RunFailure source m m' (.diagnostic d)
  | undefinedVariable {tokens : List Token} {t : Token} {d : Diagnostic} {wording : String}
    (htokens : Source.tokenize source = .ok tokens)
    (hcause : d.cause = .runtime .undefinedVariable wording) (ht : t ∈ tokens)
    (hkind : t.kind = identifier) (hunbound : m'.scopes.get? t.lexeme = none) (hd : d.SpeaksOf t) :
    RunFailure source m m' (.diagnostic d)
  | divisionByZero {tokens : List Token} {t : Token} {d : Diagnostic} {wording : String}
    (htokens : Source.tokenize source = .ok tokens)
    (hcause : d.cause = .runtime .divisionByZero wording) (ht : t ∈ tokens)
    (hkind : t.kind = slash) (hd : d.SpeaksOf t) : RunFailure source m m' (.diagnostic d)
  /-- The statements before the one that prints the number are executed. -/
  | integerTooLong {tokens : List Token} {done rest : List Stmt} {e : Expr} {n : Int}
    {m₀ m₁ : Machine} (htokens : Source.tokenize source = .ok tokens)
    (hparse : parse tokens = .ok (done ++ .print e :: rest)) (hm : m.Like m₀)
    (hdone : (executeAll done).run m₀ = .ok () m₁)
    (hvalue : e.evaluate.run m₁ = .ok (.integer n) m')
    (hlong : Decimal.digitLimit < (Nat.digits 10 n.natAbs).length) :
    RunFailure source m m' (.mishap .integerTooLong)

/-- A run fails at reading its text, or at executing what it read. -/
theorem run_eq_error (h : (run source).run m = .error f m') :
    Source.tokenize source = .error f ∨ ∃ tokens, Source.tokenize source = .ok tokens ∧
      (parse tokens = .error f ∨ ∃ program m₀, parse tokens = .ok program ∧ m.Like m₀ ∧
        (executeAll program).run m₀ = .error f m') := by
  cases htokens : Source.tokenize source with
  | error f' =>
    simp only [run, readProgram, htokens, failOn, bind_assoc] at h
    cases h
    exact .inl rfl
  | ok tokens =>
    refine .inr ⟨tokens, rfl, ?_⟩
    cases hparse : parse tokens with
    | error f' =>
      simp only [run, readProgram, htokens, hparse, failOn, bind_assoc, pure_bind] at h
      cases h
      exact .inl rfl
    | ok program =>
      simp only [run, readProgram, htokens, hparse, failOn, bind_assoc, pure_bind] at h
      refine .inr ⟨program, _, rfl, ?_, h⟩
      exact ⟨rfl, rfl⟩

/-- Numbers with more digits than are written. -/
theorem isTooLong_iff {n : Int} :
    Value.isTooLong n = true ↔ Decimal.digitLimit < (Nat.digits 10 n.natAbs).length := by
  -- For a limit that is left open, as the power of ten is not to be computed.
  have hpow (k : Nat) : k < (Nat.digits 10 n.natAbs).length ↔ Nat.pow 10 k ≤ n.natAbs :=
    Nat.lt_digits_length_iff (by decide) n.natAbs
  rw [hpow]
  exact decide_eq_true_iff

/-- The tokens of a text are refused at one of them, or they are parsed to trees of theirs. -/
theorem parse_cases_of_tokenize {tokens : List Token}
    (htokens : Source.tokenize source = .ok tokens) :
    (∃ program, parse tokens = .ok program ∧ ∀ s ∈ program, s.BuiltFrom tokens) ∨
    ∃ t ∈ tokens, ∃ fault wording expected,
      parse tokens = .error (.diagnostic (.atToken (.grammar fault wording expected) t)) := by
  obtain ⟨front, final, rfl, hfront, hfinal, -⟩ := Source.tokenize_join htokens
  rcases parse_cases hfront hfinal with ⟨program, hparse, hprogram⟩ | hrefused
  · refine .inl ⟨program, hparse, fun s hs ↦ ?_⟩
    exact (hprogram.builtFrom s hs).mono (List.subset_append_left front [final])
  · exact .inr hrefused

theorem EvaluationFailure.runFailure {tokens : List Token}
    (htokens : Source.tokenize source = .ok tokens) (h : EvaluationFailure tokens m' f) :
    RunFailure source m m' f := by
  cases h with
  | undefinedVariable ht hkind hunbound =>
    have hspeaks := Diagnostic.speaksOf_atToken htokens ht
    exact .undefinedVariable htokens rfl ht hkind hunbound (hspeaks _)
  | divisionByZero ht hkind =>
    have hspeaks := Diagnostic.speaksOf_atToken htokens ht
    exact .divisionByZero htokens rfl ht hkind (hspeaks _)

theorem runFailure_of_executeAll {tokens : List Token} {program : List Stmt} {m₀ : Machine}
    (htokens : Source.tokenize source = .ok tokens) (hparse : parse tokens = .ok program)
    (hbuilt : ∀ s ∈ program, s.BuiltFrom tokens) (hm : m.Like m₀)
    (h : (executeAll program).run m₀ = .error f m') : RunFailure source m m' f := by
  obtain ⟨done, s, rest, m₁, rfl, hdone, hs⟩ := executeAll_eq_error h
  have hbuilt : s.BuiltFrom tokens := hbuilt s (by simp)
  rcases hbuilt.fails hs with hfailure | ⟨rfl, e, n, rfl, hvalue, hlong⟩
  · exact hfailure.runFailure htokens
  · exact .integerTooLong htokens hparse hm hdone hvalue (isTooLong_iff.mp hlong)

/-- For every text and every machine, a run completes, or it fails in one of the ways of
`RunFailure`. -/
theorem run_completes_or_fails (source : String) (m : Machine) :
    (∃ m', (run source).run m = .ok () m') ∨
      ∃ f m', (run source).run m = .error f m' ∧ RunFailure source m m' f := by
  cases hrun : (run source).run m with
  | ok u m' => exact .inl ⟨m', rfl⟩
  | error f m' =>
    refine .inr ⟨f, m', rfl, ?_⟩
    rcases run_eq_error hrun with htokens | ⟨tokens, htokens, hparse | ⟨program, m₀, hparse, hm, h⟩⟩
    · rcases Source.tokenize_cases source with ⟨_, -, -, -, hok⟩ |
        ⟨_, _, d, -, -, -, hstuck, herror⟩
      · cases hok.symm.trans htokens
      · obtain rfl := Except.error.inj (htokens.symm.trans herror)
        obtain ⟨fault, hfault⟩ := hstuck.lexical
        exact .lexical htokens hfault
    · rcases parse_cases_of_tokenize htokens with ⟨_, hok, -⟩ | ⟨t, ht, _, _, _, herror⟩
      · cases hok.symm.trans hparse
      · obtain rfl := Except.error.inj (hparse.symm.trans herror)
        exact .grammar htokens hparse rfl ht (Diagnostic.speaksOf_atToken htokens ht _)
    · rcases parse_cases_of_tokenize htokens with ⟨program', hok, hbuilt⟩ | ⟨_, _, _, _, _, herror⟩
      · obtain rfl := Except.ok.inj (hparse.symm.trans hok)
        exact runFailure_of_executeAll htokens hparse hbuilt hm h
      · cases herror.symm.trans hparse

end LoxLang
