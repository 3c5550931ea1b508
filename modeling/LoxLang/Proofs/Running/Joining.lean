import LoxLang.Proofs.Lexing.Seam
import LoxLang.Proofs.Parsing.Completeness
import LoxLang.Proofs.Parsing.Likeness
import LoxLang.Proofs.Running.Likeness

/-!
Running texts one after another and running them at once.

A run is compared by how it ends, the scopes that it leaves and the lines that it prints (`effect`).
A text that can be read, a line end and a second text have the effect of the two texts in turn, but
for the lines of the second one's failures, which lie further down. If the second text cannot be
read nothing is executed. So texts that can all be read may be joined to one (`run_join`).
-/

set_option autoImplicit false
set_option relaxedAutoImplicit false

namespace LoxLang

open Grammar

variable {α β : Type} {L : Int → Int → Prop}

/-! ### Reading joined texts -/

/-- The statements of a source text. -/
def programOf (source : String) : Except Failure (List Stmt) := do
  parse (← Source.tokenize source)

theorem programOf_eq_ok {source : String} {ss : List Stmt} (h : programOf source = .ok ss) :
    ∃ tokens, Source.tokenize source = .ok tokens ∧ parse tokens = .ok ss := by
  unfold programOf at h
  cases htokens : Source.tokenize source with
  | error f =>
    rw [htokens] at h
    cases h
  | ok tokens =>
    rw [htokens] at h
    exact ⟨tokens, rfl, h⟩

/-- The lines by which what follows a text and a line end lies further down. -/
def linesOf (source : String) : Int :=
  ↑(1 + Source.Piece.newlines source.toList)

/-- After the tokens of a program, the parser does alike on tokens that are alike. -/
theorem parse_append_like {us : List Token} {program : List Stmt} (hprogram : Program us program)
    {ts ts' : List Token} (h : List.Forall₂ (Token.Like L) ts ts') :
    (∃ ss ss', parse ts = .ok ss ∧ parse (us ++ ts') = .ok (program ++ ss') ∧
      List.Forall₂ (Stmt.Like L) ss ss') ∨
    ∃ f f', parse ts = .error f ∧ parse (us ++ ts') = .error f' ∧ f.Like L f' := by
  have hend := Parser.like_program (L := L) (Feed.ofTokens ts) ⟨us.reverse ++ [], ts'⟩ h
  have hrun := Parser.run_program_append hprogram [] ts'
  rw [EStateM.run_bind] at hrun
  unfold parse
  rw [show Feed.ofTokens (us ++ ts') = ⟨[], us ++ ts'⟩ from rfl, hrun]
  generalize Parser.program.run (Feed.ofTokens ts) = r at hend
  generalize Parser.program.run ⟨us.reverse ++ [], ts'⟩ = r' at hend
  cases hend with
  | ok hss _ => exact .inl ⟨_, _, rfl, rfl, hss⟩
  | error hf _ => exact .inr ⟨_, _, rfl, rfl, hf⟩

/-- A text that can be read, a line end and a second text: the statements of both, or the failure of
the second one. -/
theorem programOf_join {a : String} {program : List Stmt} (ha : programOf a = .ok program)
    (b : String) :
    (∃ ss ss', programOf b = .ok ss ∧ programOf (a ++ "\n" ++ b) = .ok (program ++ ss') ∧
      List.Forall₂ (Stmt.Like fun x y ↦ y = x + linesOf a) ss ss') ∨
    ∃ f, programOf b = .error f ∧
      programOf (a ++ "\n" ++ b) = .error (f.moveLines (linesOf a)) := by
  obtain ⟨tokens, htokens, hparse⟩ := programOf_eq_ok ha
  obtain ⟨front, final, rfl, hfront, hfinal, hjoin⟩ := Source.tokenize_join htokens
  have hprogram : Program front program := program_of_parse hfront hfinal hparse
  unfold programOf
  rw [hjoin b]
  cases Source.tokenize b with
  | error f => exact .inr ⟨f, rfl, rfl⟩
  | ok more =>
    have hmore : List.Forall₂ (Token.Like fun x y ↦ y = x + linesOf a) more
        (more.map (Token.moveLine (linesOf a))) :=
      List.forall₂_map_right_iff.mpr (List.forall₂_same.mpr fun t _ ↦ t.like_moveLine _)
    rcases parse_append_like hprogram hmore with hok | ⟨f, f', herror, herror', hf⟩
    · exact .inl hok
    · exact .inr ⟨f, herror, herror'.trans (congrArg Except.error hf.eq_moveLines.symm)⟩

/-! ### What a run shows -/

namespace Evaluation

/-- How a computation ends, the scopes that it leaves and the lines that it printed, last first. -/
def effect (x : Evaluation α) (m : Machine) : Except Failure α × Chain × List String :=
  match x.run m with
  | .ok a m' => (.ok a, m'.scopes, m'.printed)
  | .error f m' => (.error f, m'.scopes, m'.printed)

/-- A computation whose failures lie `k` lines further down. -/
def moveLines (k : Int) (x : Evaluation α) : Evaluation α :=
  x.adaptExcept (Failure.moveLines k)

/-- On machines that are alike, two computations have the same effect. -/
abbrev Same (x x' : Evaluation α) : Prop :=
  Simulates Machine.Like Eq Eq x x'

theorem Same.effect_eq {x x' : Evaluation α} (h : Same x x') (m : Machine) :
    x.effect m = x'.effect m := by
  have hend := h m m (Machine.like_equivalence.refl m)
  unfold effect
  generalize x.run m = r at hend
  generalize x'.run m = r' at hend
  cases hend with
  | ok ha hm => simp only [ha, hm.scopes, hm.printed]
  | error he hm => simp only [he, hm.scopes, hm.printed]

theorem Same.symm {x x' : Evaluation α} (h : Same x x') : Same x' x :=
  Simulates.symm Machine.like_equivalence h

theorem Same.trans {x y z : Evaluation α} (hxy : Same x y) (hyz : Same y z) : Same x z :=
  Simulates.trans Machine.like_equivalence hxy hyz

theorem Like.same {x x' : Evaluation α} (h : Like Eq x x') : Same x x' :=
  h.mono fun _ _ hf ↦ hf.eq

theorem run_moveLines (k : Int) (x : Evaluation α) (m : Machine) :
    (x.moveLines k).run m = match x.run m with
      | .ok a m' => .ok a m'
      | .error f m' => .error (f.moveLines k) m' := by
  unfold moveLines
  rw [EStateM.run_adaptExcept]
  cases x.run m <;> rfl

theorem moveLines_bind (k : Int) (x : Evaluation α) (f : α → Evaluation β) :
    (x >>= f).moveLines k = (do (f (← x.moveLines k)).moveLines k) := by
  funext m
  show ((x >>= f).moveLines k).run m = (do (f (← x.moveLines k)).moveLines k).run m
  rw [run_moveLines, EStateM.run_bind, EStateM.run_bind, run_moveLines]
  cases x.run m with
  | ok a m' => exact (run_moveLines k (f a) m').symm
  | error e m' => rfl

theorem moveLines_moveLines (j k : Int) (x : Evaluation α) :
    (x.moveLines j).moveLines k = x.moveLines (j + k) := by
  funext m
  show ((x.moveLines j).moveLines k).run m = (x.moveLines (j + k)).run m
  rw [run_moveLines, run_moveLines, run_moveLines]
  cases x.run m with
  | ok a m' => rfl
  | error e m' => simp

theorem moveLines_zero (x : Evaluation α) : x.moveLines 0 = x := by
  funext m
  show (x.moveLines 0).run m = x.run m
  rw [run_moveLines]
  cases x.run m with
  | ok a m' => rfl
  | error e m' => simp

theorem Like.moveLines {k : Int} {x x' : Evaluation α} (h : Like (fun a b ↦ b = a + k) x x') :
    Same (x.moveLines k) x' := by
  have hmoved : Same (x.moveLines k) (x'.moveLines 0) :=
    h.adaptExcept fun f f' hf ↦ hf.eq_moveLines.trans f'.moveLines_zero.symm
  rwa [moveLines_zero] at hmoved

theorem Same.moveLines {x x' : Evaluation α} (h : Same x x') (k : Int) :
    Same (x.moveLines k) (x'.moveLines k) :=
  h.adaptExcept fun _ _ he ↦ congrArg (Failure.moveLines k) he

theorem Same.note {x x' : Evaluation α} (h : Same x x') (n : Notice) :
    Same (do note n; x) x' := by
  intro m m' hm
  exact h _ m' ⟨hm.scopes, hm.printed⟩

end Evaluation

open Evaluation

/-- A text that can be read does what its statements do. -/
theorem run_same_of_ok {source : String} {ss : List Stmt} (h : programOf source = .ok ss) :
    Same (run source) (executeAll ss) := by
  obtain ⟨tokens, htokens, hparse⟩ := programOf_eq_ok h
  have hexecute : Same (executeAll ss) (executeAll ss) :=
    (executeAll_like (List.forall₂_same.mpr fun s _ ↦ s.like_refl fun _ ↦ rfl)).same
  simp only [run, readProgram, htokens, hparse, failOn, bind_assoc, pure_bind]
  exact Same.note (Same.note (Same.note hexecute _) _) _

/-- A text that cannot be read does nothing. -/
theorem run_same_of_error {source : String} {f : Failure} (h : programOf source = .error f) :
    Same (run source) (throw f) := by
  have hthrow : Same (throw f : Evaluation Unit) (throw f) := simulates_throw rfl
  unfold programOf at h
  cases htokens : Source.tokenize source with
  | error f' =>
    rw [htokens] at h
    obtain rfl : f' = f := Except.error.inj h
    simp only [run, readProgram, htokens, failOn, bind_assoc]
    exact Same.note hthrow _
  | ok tokens =>
    rw [htokens] at h
    have hparse : parse tokens = .error f := h
    simp only [run, readProgram, htokens, hparse, failOn, bind_assoc, pure_bind]
    exact Same.note hthrow _

/-! ### Running joined texts -/

/-- Two texts that can be read, joined or in turn. -/
theorem run_join_same {a b : String} {program ss : List Stmt} (ha : programOf a = .ok program)
    (hb : programOf b = .ok ss) :
    Same (run (a ++ "\n" ++ b)) (do run a; (run b).moveLines (linesOf a)) := by
  rcases programOf_join ha b with ⟨ss₁, ss', hb', hjoin, hss⟩ | ⟨f, herror, -⟩
  · obtain rfl : ss₁ = ss := Except.ok.inj (hb'.symm.trans hb)
    have hmoved : Same ((executeAll ss₁).moveLines (linesOf a)) (executeAll ss') :=
      (executeAll_like hss).moveLines
    have hsecond : Same ((run b).moveLines (linesOf a)) (executeAll ss') :=
      ((run_same_of_ok hb).moveLines _).trans hmoved
    have hturn : Same (do run a; (run b).moveLines (linesOf a))
        (do executeAll program; executeAll ss') :=
      (run_same_of_ok ha).bind fun _ _ _ ↦ hsecond
    have honce := run_same_of_ok hjoin
    rw [executeAll_append] at honce
    exact honce.trans hturn.symm
  · cases herror.symm.trans hb

/-- Texts that are run one after another, the first of them `k` lines down. The line of a failure is
counted from the beginning of all texts. -/
def runInTurn : Int → List String → Evaluation Unit
  | _, [] => pure ()
  | k, a :: sources => do
    (run a).moveLines k
    runInTurn (k + linesOf a) sources

theorem moveLines_runInTurn (j k : Int) (sources : List String) :
    (runInTurn j sources).moveLines k = runInTurn (j + k) sources := by
  induction sources generalizing j with
  | nil => rfl
  | cons a sources ih =>
    simp only [runInTurn, moveLines_bind, moveLines_moveLines, ih]
    rw [Int.add_right_comm]

theorem run_joined_same (sources : List String) (h : ∀ s ∈ sources, ∃ ss, programOf s = .ok ss) :
    (∃ ss, programOf ("\n".intercalate sources) = .ok ss) ∧
      Same (run ("\n".intercalate sources)) (runInTurn 0 sources) := by
  induction sources with
  | nil =>
    have hempty : programOf ("\n".intercalate []) = .ok [] := rfl
    exact ⟨⟨[], hempty⟩, run_same_of_ok hempty⟩
  | cons a sources ih =>
    obtain ⟨⟨program, ha⟩, hsources⟩ := List.forall_mem_cons.mp h
    have hturn : runInTurn 0 (a :: sources) =
        (do run a; (runInTurn 0 sources).moveLines (linesOf a)) := by
      simp only [runInTurn, moveLines_zero, moveLines_runInTurn]
    have hrefl : Same (run a) (run a) := (run_same_of_ok ha).trans (run_same_of_ok ha).symm
    rw [hturn]
    cases sources with
    | nil =>
      have hlast :
          (do run a; (runInTurn 0 []).moveLines (linesOf a) : Evaluation Unit) = run a := by
        rw [moveLines_runInTurn]
        exact bind_pure_unit
      rw [String.intercalate_singleton, hlast]
      exact ⟨⟨program, ha⟩, hrefl⟩
    | cons b sources =>
      obtain ⟨⟨ss, hss⟩, hsame⟩ := ih hsources
      rw [String.intercalate_cons_cons]
      refine ⟨?_, (run_join_same ha hss).trans (hrefl.bind fun _ _ _ ↦ hsame.moveLines _)⟩
      rcases programOf_join ha ("\n".intercalate (b :: sources)) with
        ⟨_, ss', -, hjoin, -⟩ | ⟨f, herror, -⟩
      · exact ⟨_, hjoin⟩
      · cases herror.symm.trans hss

/-- A text that can be read, joined by a line end to a second text: if the second text cannot be
read the run fails as the second text does, further down, and does nothing; otherwise it has the
effect of running the first text and then the second one. Texts that can all be read have the effect
of one run when they are run in turn. -/
theorem run_join (m : Machine) :
    (∀ a program, programOf a = .ok program → ∀ b,
      (∀ f, programOf b = .error f →
        (run (a ++ "\n" ++ b)).effect m = (.error (f.moveLines (linesOf a)), m.scopes, m.printed)) ∧
      ∀ ss, programOf b = .ok ss →
        (run (a ++ "\n" ++ b)).effect m =
          (do run a; (run b).moveLines (linesOf a) : Evaluation Unit).effect m) ∧
    ∀ sources : List String, (∀ s ∈ sources, ∃ ss, programOf s = .ok ss) →
      (run ("\n".intercalate sources)).effect m = (runInTurn 0 sources).effect m := by
  refine ⟨fun a program ha b ↦ ⟨fun f hb ↦ ?_, fun ss hb ↦ (run_join_same ha hb).effect_eq m⟩,
    fun sources h ↦ (run_joined_same sources h).2.effect_eq m⟩
  rcases programOf_join ha b with ⟨ss, _, hb', -, -⟩ | ⟨f', hb', hjoin⟩
  · cases hb'.symm.trans hb
  · obtain rfl : f' = f := Except.error.inj (hb'.symm.trans hb)
    exact (run_same_of_error hjoin).effect_eq m

/-- A definition, a division by zero and a text that cannot be read, on lines of their own. -/
theorem run_join_of_division :
    (run ("var x = 2;" ++ "\n" ++ "print x / 0;")).effect (.ofScopes default) =
      (do run "var x = 2;"; (run "print x / 0;").moveLines 1 : Evaluation Unit).effect
        (.ofScopes default) ∧
    (∃ f, programOf "print ;" = .error f ∧
      (run ("var x = 2;" ++ "\n" ++ "print ;")).effect (.ofScopes default) =
        (.error (f.moveLines 1), default, [])) ∧
    (run ("\n".intercalate ["var x = 2;", "print x / 0;"])).effect (.ofScopes default) =
      (runInTurn 0 ["var x = 2;", "print x / 0;"]).effect (.ofScopes default) := by
  have hvar : programOf "var x = 2;" = .ok [.var ⟨.identifier, "x", .nil, 1⟩
      (some (.literal (.integer 2)))] := by
    decide +kernel
  have hdivision : programOf "print x / 0;" = .ok [.print (.binary
      (.reference ⟨.identifier, "x", .nil, 1⟩) ⟨.slash, "/", .nil, 1⟩
      (.literal (.integer 0)))] := by
    decide +kernel
  have hfails : programOf "print ;" = .error (.diagnostic (.atToken
      (.grammar .expectedExpression "Expect expression." none) ⟨.semicolon, ";", .nil, 1⟩)) := by
    decide +kernel
  have hlines : linesOf "var x = 2;" = 1 := by
    decide +kernel
  have hread : ∀ s ∈ ["var x = 2;", "print x / 0;"], ∃ ss, programOf s = .ok ss := by
    simp [hvar, hdivision]
  obtain ⟨hjoin, hturn⟩ := run_join (.ofScopes default)
  have hsecond := hjoin _ _ hvar "print x / 0;"
  have hthird := hjoin _ _ hvar "print ;"
  rw [hlines] at hsecond hthird
  exact ⟨hsecond.2 _ hdivision, ⟨_, hfails, hthird.1 _ hfails⟩, hturn _ hread⟩

end LoxLang
