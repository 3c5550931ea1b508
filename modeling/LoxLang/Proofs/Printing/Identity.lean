import LoxLang.Proofs.Printing.Unambiguous
import LoxLang.Proofs.Running.Layout

/-!
The dump of a text shows its program.

A statement shows where its text ends (`Stmt.Plain.unambiguous`), so line ends inside strings are
not taken for those between statements (`forall₂_like_of_programText_eq`). So texts have the same
dump if and only if they spell the same statements, up to the lines of tokens and up to overflowed
literals, which are written as a variable of the name `inf` is (`dump_eq_iff`).
-/

set_option autoImplicit false
set_option relaxedAutoImplicit false

namespace LoxLang

open Source Evaluation

/-! ### Statements -/

section Statements

variable {s s' : Stmt} {r r' : List Char}

/-- Statements with the same head and operands that are alike are alike. -/
theorem Stmt.Plain.like_of_parts (h : s.Plain) (h' : s'.Plain) (hhead : s.parts.1 = s'.parts.1)
    (hlike : List.Forall₂ (Expr.Like AnyLine) s.parts.2 s'.parts.2) : s.Like AnyLine s' := by
  have hname {t t' : Token} (ht : (Expr.reference t).Like AnyLine (.reference t')) :
      t.Like AnyLine t' := by
    cases ht with
    | reference ht => exact ht
  cases s with
  | print value =>
    cases s' with
    | print value' => exact .print (forall₂_one hlike rfl)
    | expression value' => cases hhead
    | var name initial => cases initial <;> cases hhead
    | foreign node => exact h'.elim
  | expression value =>
    cases s' with
    | print value' => cases hhead
    | expression value' => exact .expression (forall₂_one hlike rfl)
    | var name initial => cases initial <;> cases hhead
    | foreign node => exact h'.elim
  | var name initial =>
    cases s' with
    | print value' => cases initial <;> cases hhead
    | expression value' => cases initial <;> cases hhead
    | var name' initial' =>
      cases initial with
      | none =>
        cases initial' with
        | none => exact .var (hname (forall₂_one hlike rfl)) .none
        | some e' => cases hlike.length_eq
      | some e =>
        cases initial' with
        | none => cases hlike.length_eq
        | some e' =>
          obtain ⟨ht, he⟩ := forall₂_two hlike rfl
          exact .var (hname ht) (.some he)
    | foreign node => exact h'.elim
  | foreign node => exact h.elim

/-- Whatever follows the text of a statement, it ends in one place only. -/
theorem Stmt.Plain.unambiguous (h : s.Plain) (h' : s'.Plain)
    (heq : s.letters ++ r = s'.letters ++ r') : s.Like AnyLine s' ∧ r = r' := by
  rw [h.letters_eq, h'.letters_eq] at heq
  have hoperands : ∀ e ∈ s.parts.2, e.Unambiguous :=
    fun e he ↦ (h.enclosable.plain e he).unambiguous
  obtain ⟨hhead, hlike, hrest⟩ := h.enclosable.unambiguous h'.enclosable hoperands heq
  exact ⟨h.like_of_parts h' hhead hlike, hrest⟩

end Statements

/-! ### Programs -/

section Programs

variable {ss ss' : List Stmt}

/-- The lines after the first one. -/
def laterLines (ss : List Stmt) : List Char :=
  ss.flatMap ('\n' :: ·.letters)

theorem forall₂_like_of_laterLines_eq (h : ∀ s ∈ ss, s.Plain) (h' : ∀ s ∈ ss', s.Plain)
    (heq : laterLines ss = laterLines ss') : List.Forall₂ (Stmt.Like AnyLine) ss ss' := by
  induction ss generalizing ss' with
  | nil =>
    cases ss' with
    | nil => exact .nil
    | cons s' ss' => cases heq
  | cons s ss ih =>
    cases ss' with
    | nil => cases heq
    | cons s' ss' =>
      obtain ⟨hs, hss⟩ := List.forall_mem_cons.mp h
      obtain ⟨hs', hss'⟩ := List.forall_mem_cons.mp h'
      obtain ⟨hlike, hrest⟩ := hs.unambiguous hs' (List.tail_eq_of_cons_eq heq)
      exact .cons hlike (ih hss hss' hrest)

theorem toList_intercalate_letters (s : Stmt) (ss : List Stmt) :
    ("\n".intercalate ((s :: ss).map fun s ↦ String.ofList s.letters)).toList =
      s.letters ++ laterLines ss := by
  induction ss generalizing s with
  | nil => simp [laterLines]
  | cons s' ss ih =>
    have hlater := ih s'
    rw [List.map_cons] at hlater
    rw [List.map_cons, List.map_cons, String.intercalate_cons_cons, String.toList_append, hlater]
    simp [laterLines]

theorem programText_eq (h : ∀ s ∈ ss, s.Plain) :
    programText ss = .ok ("\n".intercalate (ss.map fun s ↦ String.ofList s.letters)) := by
  have hforms : ss.mapM Stmt.prefixForm = .ok (ss.map fun s ↦ String.ofList s.letters) := by
    induction ss with
    | nil => rfl
    | cons s ss ih =>
      obtain ⟨hs, hss⟩ := List.forall_mem_cons.mp h
      rw [List.mapM_cons, hs.prefixForm_eq, ih hss]
      rfl
  rw [programText, hforms]
  rfl

/-- Programs with the same text are alike. -/
theorem forall₂_like_of_programText_eq (h : ∀ s ∈ ss, s.Plain) (h' : ∀ s ∈ ss', s.Plain)
    (heq : programText ss = programText ss') : List.Forall₂ (Stmt.Like AnyLine) ss ss' := by
  rw [programText_eq h, programText_eq h'] at heq
  have htexts := congrArg String.toList (Except.ok.inj heq)
  cases ss with
  | nil =>
    cases ss' with
    | nil => exact .nil
    | cons s' ss' =>
      rw [toList_intercalate_letters, (h' s' (by simp)).letters_eq] at htexts
      cases htexts
  | cons s ss =>
    cases ss' with
    | nil =>
      rw [toList_intercalate_letters, (h s (by simp)).letters_eq] at htexts
      cases htexts
    | cons s' ss' =>
      obtain ⟨hs, hss⟩ := List.forall_mem_cons.mp h
      obtain ⟨hs', hss'⟩ := List.forall_mem_cons.mp h'
      rw [toList_intercalate_letters, toList_intercalate_letters] at htexts
      obtain ⟨hlike, hrest⟩ := hs.unambiguous hs' htexts
      exact .cons hlike (forall₂_like_of_laterLines_eq hss hss' hrest)

theorem programText_nameOverflow (ss : List Stmt) :
    programText (ss.map Stmt.nameOverflow) = programText ss := by
  have hforms : (ss.map Stmt.nameOverflow).mapM Stmt.prefixForm = ss.mapM Stmt.prefixForm := by
    induction ss with
    | nil => rfl
    | cons s ss ih =>
      rw [List.map_cons, List.mapM_cons, List.mapM_cons, Stmt.prefixForm_nameOverflow, ih]
  rw [programText, programText, hforms]

end Programs

/-! ### Dumps -/

section Dumps

variable {a b : String} {ss tt : List Stmt}

/-- Dumping a text that can be read gives a text, and does nothing else. -/
theorem effect_dump (ha : programOf a = .ok ss) {text : String}
    (htext : programText ss = .ok text) (m : Machine) :
    (dump a).effect m = (.ok text, m.scopes, m.printed) := by
  obtain ⟨tokens, htokens, hparse⟩ := programOf_eq_ok ha
  simp only [effect, dump, readProgram, htokens, hparse, failOn, bind_assoc, pure_bind, htext]
  rfl

/-- Every text that can be read has a dump. Two of them have the same dump if and only if they have
the same statements, node by node, where the lines of tokens do not count and an overflowed literal
counts as a variable of the name `inf`. -/
theorem dump_eq_iff (ha : programOf a = .ok ss) (hb : programOf b = .ok tt) :
    ∃ text text', (∀ m, (dump a).effect m = (.ok text, m.scopes, m.printed)) ∧
      (∀ m, (dump b).effect m = (.ok text', m.scopes, m.printed)) ∧
      (text = text' ↔ List.Forall₂ (Stmt.Like AnyLine) (ss.map Stmt.nameOverflow)
        (tt.map Stmt.nameOverflow)) := by
  have hss : ∀ s ∈ ss.map Stmt.nameOverflow, s.Plain := by
    simpa using plain_of_programOf ha
  have htt : ∀ t ∈ tt.map Stmt.nameOverflow, t.Plain := by
    simpa using plain_of_programOf hb
  have htext := (programText_nameOverflow ss).symm.trans (programText_eq hss)
  have htext' := (programText_nameOverflow tt).symm.trans (programText_eq htt)
  refine ⟨_, _, effect_dump ha htext, effect_dump hb htext', fun heq ↦ ?_, fun hlike ↦ ?_⟩
  · apply forall₂_like_of_programText_eq hss htt
    rw [programText_eq hss, programText_eq htt, heq]
  · have hsame := programText_eq_of_like hlike
    rw [programText_eq hss, programText_eq htt] at hsame
    exact (Except.ok.inj hsame).symm

/-- A string that holds the line of another statement is not taken for it. -/
theorem dump_ne_of_line_in_string :
    ∃ text text', (∀ m, (dump "x; y;").effect m = (.ok text, m.scopes, m.printed)) ∧
      (∀ m, (dump "\"x)\n(; y\";").effect m = (.ok text', m.scopes, m.printed)) ∧
      text ≠ text' := by
  have ha : programOf "x; y;" = .ok [.expression (.reference ⟨.identifier, "x", .nil, 1⟩),
      .expression (.reference ⟨.identifier, "y", .nil, 1⟩)] := by
    decide +kernel
  have hb : programOf "\"x)\n(; y\";" = .ok [.expression (.literal (.string "x)\n(; y"))] := by
    decide +kernel
  obtain ⟨text, text', htext, htext', hiff⟩ := dump_eq_iff ha hb
  refine ⟨text, text', htext, htext', fun heq ↦ ?_⟩
  have hlength := (hiff.mp heq).length_eq
  simp at hlength

end Dumps

end LoxLang
