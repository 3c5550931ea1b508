import LoxLang.Proofs.Printing.Literals

/-!
The prefix form of a plain tree shows the tree.

A tree is written as an atom or as a head and operands in parentheses (`Expr.parts?`). Whatever
follows the text of an operand, where the text ends is determined, and with it the tree but for the
lines of its tokens (`Expr.Plain.unambiguous`). Statements have the same form, and their text ends
with its closing parenthesis (`Stmt.Plain.unambiguous`).
-/

set_option autoImplicit false
set_option relaxedAutoImplicit false

namespace LoxLang

open Source Token.Kind

/-! ### Heads and operands -/

/-- The letters of a prefix form, none if there is no prefix form. -/
def lettersOf : Except Mishap String → List Char
  | .ok text => text.toList
  | .error _ => []

def Expr.letters (e : Expr) : List Char :=
  lettersOf e.prefixForm

def Stmt.letters (s : Stmt) : List Char :=
  lettersOf s.prefixForm

/-- A head and the letters of operands in parentheses. -/
def enclosed (head : List Char) (operands : List Expr) : List Char :=
  '(' :: head ++ operands.flatMap (' ' :: ·.letters) ++ [')']

/-- The head and the operands of a tree that is written in parentheses. -/
def Expr.parts? : Expr → Option (List Char × List Expr)
  | assign name value => some (['='], [reference name, value])
  | binary left operator right => some (operator.lexeme.toList, [left, right])
  | grouping inner => some (['g', 'r', 'o', 'u', 'p'], [inner])
  | unary operator right => some (operator.lexeme.toList, [right])
  | literal _ | reference _ | foreign _ => none

/-- The head and the operands of a statement. -/
def Stmt.parts : Stmt → List Char × List Expr
  | print value => (['p', 'r', 'i', 'n', 't'], [value])
  | expression value => ([';'], [value])
  | var name none => (['v', 'a', 'r'], [.reference name])
  | var name (some initial) => (['v', 'a', 'r'], [.reference name, initial])
  | foreign _ => ([], [])

/-- What can be in front of the closing parenthesis. -/
structure Enclosable (head : List Char) (operands : List Expr) : Prop where
  head : ' ' ∉ head
  nonempty : operands ≠ []
  plain : ∀ e ∈ operands, e.Plain

section Plain

variable {e : Expr} {s : Stmt} {head : List Char} {operands : List Expr}

theorem Expr.Plain.exists_prefixForm (h : e.Plain) : ∃ text, e.prefixForm = .ok text := by
  induction e with
  | assign name value ih =>
    obtain ⟨text, htext⟩ := ih h.2
    simp only [prefixForm, htext]
    exact ⟨_, rfl⟩
  | binary left operator right ihl ihr =>
    obtain ⟨l, hl⟩ := ihl h.1
    obtain ⟨r, hr⟩ := ihr h.2.2
    simp only [prefixForm, hl, hr]
    exact ⟨_, rfl⟩
  | grouping inner ih =>
    obtain ⟨text, htext⟩ := ih h
    simp only [prefixForm, htext]
    exact ⟨_, rfl⟩
  | literal value => exact h.1.exists_literalText
  | unary operator right ih =>
    obtain ⟨text, htext⟩ := ih h.2
    simp only [prefixForm, htext]
    exact ⟨_, rfl⟩
  | reference name => exact ⟨_, rfl⟩
  | foreign node => exact h.elim

theorem Stmt.Plain.exists_prefixForm (h : s.Plain) : ∃ text, s.prefixForm = .ok text := by
  cases s with
  | print value | expression value =>
    obtain ⟨text, htext⟩ := Expr.Plain.exists_prefixForm h
    simp only [prefixForm, htext]
    exact ⟨_, rfl⟩
  | var name initial =>
    cases initial with
    | none => exact ⟨_, rfl⟩
    | some e =>
      obtain ⟨text, htext⟩ := (h.2 e rfl).exists_prefixForm
      simp only [prefixForm, htext]
      exact ⟨_, rfl⟩
  | foreign node => exact h.elim

theorem eq_ok_lettersOf {form : Except Mishap String} (h : ∃ text, form = .ok text) :
    form = .ok (String.ofList (lettersOf form)) := by
  obtain ⟨text, rfl⟩ := h
  rw [lettersOf, String.ofList_toList]

theorem Expr.Plain.prefixForm_eq (h : e.Plain) : e.prefixForm = .ok (String.ofList e.letters) :=
  eq_ok_lettersOf h.exists_prefixForm

theorem Stmt.Plain.prefixForm_eq (h : s.Plain) : s.prefixForm = .ok (String.ofList s.letters) :=
  eq_ok_lettersOf h.exists_prefixForm

/-- The text of an operator has no blank and is no other head. -/
theorem Token.IsOperator.lexeme {t : Token} (h : t.IsOperator) : ' ' ∉ t.lexeme.toList ∧
    t.lexeme.toList ≠ ['='] ∧ t.lexeme.toList ≠ ['g', 'r', 'o', 'u', 'p'] := by
  have hkinds : ∀ k ∈ operatorKinds, k ∈ Piece.marks.map Prod.fst := by decide
  have hmarks : ∀ m ∈ Piece.marks, m.1 ∈ operatorKinds →
      ' ' ∉ m.2 ∧ m.2 ≠ ['='] ∧ m.2 ≠ ['g', 'r', 'o', 'u', 'p'] := by decide
  exact hmarks _ (h.lexed.mem_marks (hkinds _ h.kind)) h.kind

theorem enclosable_one (hhead : ' ' ∉ head) (he : e.Plain) : Enclosable head [e] :=
  ⟨hhead, by simp, by simpa using he⟩

theorem enclosable_two {e' : Expr} (hhead : ' ' ∉ head) (he : e.Plain) (he' : e'.Plain) :
    Enclosable head [e, e'] :=
  ⟨hhead, by simp, by simpa using ⟨he, he'⟩⟩

theorem Expr.Plain.enclosable (h : e.Plain) (hparts : e.parts? = some (head, operands)) :
    Enclosable head operands := by
  cases e with
  | assign name value =>
    cases hparts
    exact enclosable_two (by decide) h.1 h.2
  | binary left operator right =>
    cases hparts
    exact enclosable_two h.2.1.lexeme.1 h.1 h.2.2
  | grouping inner =>
    cases hparts
    exact enclosable_one (by decide) h
  | unary operator right =>
    cases hparts
    exact enclosable_one h.1.lexeme.1 h.2
  | literal | reference | foreign => cases hparts

theorem Stmt.Plain.enclosable (h : s.Plain) : Enclosable s.parts.1 s.parts.2 := by
  have hprint : ' ' ∉ ['p', 'r', 'i', 'n', 't'] := by decide
  have hvar : ' ' ∉ ['v', 'a', 'r'] := by decide
  cases s with
  | print value => exact enclosable_one hprint h
  | expression value => exact enclosable_one (by simp [parts]) h
  | var name initial =>
    cases initial with
    | none => exact enclosable_one hvar h.1
    | some e => exact enclosable_two hvar h.1 (h.2 e rfl)
  | foreign node => exact h.elim

theorem letters_reference (name : Token) : (Expr.reference name).letters = name.lexeme.toList :=
  rfl

theorem toList_parenthesized_one (head : String) (e : Expr) :
    (parenthesized head [String.ofList e.letters]).toList = enclosed head.toList [e] := by
  simp [parenthesized, enclosed]

theorem toList_parenthesized_two (head : String) (e e' : Expr) :
    (parenthesized head [String.ofList e.letters, String.ofList e'.letters]).toList =
      enclosed head.toList [e, e'] := by
  simp [parenthesized, enclosed]

/-- A name after the head is written as an operand is. -/
theorem toList_parenthesized_name (head : String) (name : Token) (e : Expr) :
    (parenthesized (head ++ " " ++ name.lexeme) [String.ofList e.letters]).toList =
      enclosed head.toList [.reference name, e] := by
  simp [parenthesized, enclosed, letters_reference]

theorem Expr.Plain.letters_of_parts (h : e.Plain) (hparts : e.parts? = some (head, operands)) :
    e.letters = enclosed head operands := by
  cases e with
  | assign name value =>
    cases hparts
    rw [letters, prefixForm, h.2.prefixForm_eq]
    exact toList_parenthesized_name "=" name value
  | binary left operator right =>
    cases hparts
    rw [letters, prefixForm, h.1.prefixForm_eq, h.2.2.prefixForm_eq]
    exact toList_parenthesized_two operator.lexeme left right
  | grouping inner =>
    cases hparts
    have hinner : inner.Plain := h
    rw [letters, prefixForm, hinner.prefixForm_eq]
    exact toList_parenthesized_one "group" inner
  | unary operator right =>
    cases hparts
    rw [letters, prefixForm, h.2.prefixForm_eq]
    exact toList_parenthesized_one operator.lexeme right
  | literal | reference | foreign => cases hparts

theorem Stmt.Plain.letters_eq (h : s.Plain) : s.letters = enclosed s.parts.1 s.parts.2 := by
  cases s with
  | print value =>
    have hvalue : value.Plain := h
    rw [letters, prefixForm, hvalue.prefixForm_eq]
    exact toList_parenthesized_one "print" value
  | expression value =>
    have hvalue : value.Plain := h
    rw [letters, prefixForm, hvalue.prefixForm_eq]
    exact toList_parenthesized_one ";" value
  | var name initial =>
    cases initial with
    | none => simp [letters, prefixForm, lettersOf, enclosed, parts, letters_reference]
    | some e =>
      rw [letters, prefixForm, (h.2 e rfl).prefixForm_eq]
      exact toList_parenthesized_name "var" name e
  | foreign node => exact h.elim

end Plain

/-! ### Atoms -/

/-- A text that begins with what can follow an operand. -/
def Closes (rest : List Char) : Prop :=
  ∃ c ∈ rest.head?, c = ' ' ∨ c = ')'

section Atoms

variable {e e' : Expr} {r r' : List Char}

/-- A tree without operands is written in quotation marks or bare. -/
theorem Expr.Plain.atom_cases (h : e.Plain) (hparts : e.parts? = none) :
    (∃ body, '"' ∉ body ∧ e.letters = '"' :: (body ++ ['"'])) ∨ Bare e.letters := by
  cases e with
  | literal value =>
    by_cases hstring : value.variant = .string
    · cases value with
      | string s =>
        exact .inl ⟨s.toList, h.1, by simp [letters, lettersOf, prefixForm, Value.literalText]⟩
      | _ => cases hstring
    · obtain ⟨text, htext⟩ := h.1.exists_literalText
      have hbare := h.1.bare h.2 htext hstring
      rw [letters, prefixForm, htext]
      exact .inr hbare
  | reference name =>
    have hname : name.IsName := h
    exact .inr hname.bare
  | foreign node => exact h.elim
  | assign | binary | grouping | unary => cases hparts

/-- Trees without operands with the same letters are alike. -/
theorem Expr.Plain.like_of_letters_eq (h : e.Plain) (h' : e'.Plain) (hparts : e.parts? = none)
    (hparts' : e'.parts? = none) (hletters : e.letters = e'.letters) : e.Like AnyLine e' := by
  have hforms : e.prefixForm = e'.prefixForm := by
    rw [h.prefixForm_eq, h'.prefixForm_eq, hletters]
  cases e with
  | literal v =>
    cases e' with
    | literal v' =>
      obtain ⟨text, htext⟩ := h.1.exists_literalText
      obtain rfl : v = v' := h.1.eq_of_literalText h.2 h'.1 h'.2 htext (hforms.symm.trans htext)
      exact .literal v
    | reference name =>
      have hname : name.IsName := h'
      exact absurd hforms (hname.ne_literalText h.1 h.2)
    | foreign node => exact h'.elim
    | assign | binary | grouping | unary => cases hparts'
  | reference name =>
    have hname : name.IsName := h
    cases e' with
    | literal v => exact absurd hforms.symm (hname.ne_literalText h'.1 h'.2)
    | reference name' =>
      have hname' : name'.IsName := h'
      exact .reference (hname.lexed.like hname'.lexed (Except.ok.inj hforms).symm)
    | foreign node => exact h'.elim
    | assign | binary | grouping | unary => cases hparts'
  | foreign node => exact h.elim
  | assign | binary | grouping | unary => cases hparts

theorem Bare.head?_ne {text : List Char} (h : Bare text) (rest : List Char) {c : Char}
    (hc : isAlphaNumeric c = false) : (text ++ rest).head? ≠ some c := by
  obtain ⟨d, hd, halpha⟩ := h.first
  rw [List.mem_head?_append_of_mem_head? hd, Ne, Option.some.injEq]
  exact ne_of_isAlphaNumeric halpha hc

/-- A tree without operands does not begin with a parenthesis. -/
theorem Expr.Plain.head?_of_atom (h : e.Plain) (hparts : e.parts? = none) (rest : List Char) :
    (e.letters ++ rest).head? ≠ some '(' := by
  rcases h.atom_cases hparts with ⟨body, -, hletters⟩ | hbare
  · simp [hletters]
  · exact hbare.head?_ne rest (by decide)

theorem Bare.eq_of_append_eq {text text' : List Char} (h : Bare text) (h' : Bare text')
    (hr : Closes r) (hr' : Closes r') (heq : text ++ r = text' ++ r') : text = text' := by
  have hplain {us : List Char} (hus : Bare us) : ∀ c ∈ us, (c != ' ' && c != ')') = true := by
    intro c hc
    simpa using hus.plain c hc
  have hends {us : List Char} (hus : Closes us) :
      ∀ c ∈ us.head?, (c != ' ' && c != ')') = false := by
    obtain ⟨d, hd, hclose⟩ := hus
    intro c hc
    obtain rfl := Option.mem_unique hc hd
    rcases hclose with rfl | rfl <;> rfl
  exact (eq_of_append_eq_append_of_ends (hplain h) (hends hr) (hplain h') (hends hr') heq).1

/-- Whatever follows the text of a tree without operands, the text ends in one place only. -/
theorem Expr.Plain.unambiguous_atom (h : e.Plain) (h' : e'.Plain) (hparts : e.parts? = none)
    (hparts' : e'.parts? = none) (hr : Closes r) (hr' : Closes r')
    (heq : e.letters ++ r = e'.letters ++ r') : e.Like AnyLine e' ∧ r = r' := by
  suffices hletters : e.letters = e'.letters by
    refine ⟨h.like_of_letters_eq h' hparts hparts' hletters, ?_⟩
    rw [hletters] at heq
    exact List.append_cancel_left heq
  have hquote : isAlphaNumeric '"' = false := by decide
  rcases h.atom_cases hparts with ⟨body, hbody, hletters⟩ | hbare <;>
    rcases h'.atom_cases hparts' with ⟨body', hbody', hletters'⟩ | hbare'
  · rw [hletters, hletters'] at heq
    have hbodies : body ++ '"' :: r = body' ++ '"' :: r' := by simpa using heq
    rw [hletters, hletters', (eq_of_append_cons_eq hbody hbody' hbodies).1]
  · refine absurd ?_ (hbare'.head?_ne r' hquote)
    rw [← heq, hletters]
    rfl
  · refine absurd ?_ (hbare.head?_ne r hquote)
    rw [heq, hletters']
    rfl
  · exact hbare.eq_of_append_eq hbare' hr hr' heq

end Atoms

/-! ### Trees in parentheses -/

/-- Whatever follows the text of the tree, it ends in one place only and shows the tree. -/
def Expr.Unambiguous (e : Expr) : Prop :=
  ∀ (e' : Expr) (r r' : List Char), e'.Plain → Closes r → Closes r' →
    e.letters ++ r = e'.letters ++ r' → e.Like AnyLine e' ∧ r = r'

section Enclosed

variable {e e' : Expr} {r r' head head' : List Char} {operands operands' : List Expr}

theorem closes_of_operands (operands : List Expr) (r : List Char) :
    Closes (operands.flatMap (' ' :: ·.letters) ++ ')' :: r) := by
  cases operands with
  | nil => exact ⟨')', rfl, .inr rfl⟩
  | cons e operands => exact ⟨' ', rfl, .inl rfl⟩

/-- The operands end at the closing parenthesis. -/
theorem operands_unambiguous (h : ∀ e ∈ operands, e.Unambiguous) (h' : ∀ e ∈ operands', e.Plain)
    (heq : operands.flatMap (' ' :: ·.letters) ++ ')' :: r =
      operands'.flatMap (' ' :: ·.letters) ++ ')' :: r') :
    List.Forall₂ (Expr.Like AnyLine) operands operands' ∧ r = r' := by
  induction operands generalizing operands' with
  | nil =>
    cases operands' with
    | nil => exact ⟨.nil, List.tail_eq_of_cons_eq heq⟩
    | cons e' operands' => simp at heq
  | cons e operands ih =>
    cases operands' with
    | nil => simp at heq
    | cons e' operands' =>
      obtain ⟨he, hoperands⟩ := List.forall_mem_cons.mp h
      obtain ⟨he', hoperands'⟩ := List.forall_mem_cons.mp h'
      rw [List.flatMap_cons, List.flatMap_cons, List.append_assoc, List.append_assoc] at heq
      obtain ⟨hlike, hrest⟩ := he e' _ _ he' (closes_of_operands operands r)
        (closes_of_operands operands' r') (List.tail_eq_of_cons_eq heq)
      obtain ⟨hlikes, hr⟩ := ih hoperands hoperands' hrest
      exact ⟨.cons hlike hlikes, hr⟩

/-- A text in parentheses shows its head and its operands, and where it ends. -/
theorem Enclosable.unambiguous (h : Enclosable head operands) (h' : Enclosable head' operands')
    (hoperands : ∀ e ∈ operands, e.Unambiguous)
    (heq : enclosed head operands ++ r = enclosed head' operands' ++ r') :
    head = head' ∧ List.Forall₂ (Expr.Like AnyLine) operands operands' ∧ r = r' := by
  have hspaces : head ++ (operands.flatMap (' ' :: ·.letters) ++ ')' :: r) =
      head' ++ (operands'.flatMap (' ' :: ·.letters) ++ ')' :: r') := by
    simpa [enclosed] using heq
  have hblank {es : List Expr} (hne : es ≠ []) (rest : List Char) :
      ∃ more, es.flatMap (' ' :: ·.letters) ++ rest = ' ' :: more := by
    obtain ⟨e, es, rfl⟩ := List.exists_cons_of_ne_nil hne
    exact ⟨_, rfl⟩
  -- The head ends at the first blank.
  obtain ⟨more, hmore⟩ := hblank h.nonempty (')' :: r)
  obtain ⟨more', hmore'⟩ := hblank h'.nonempty (')' :: r')
  rw [hmore, hmore'] at hspaces
  obtain ⟨hhead, hrest⟩ := eq_of_append_cons_eq h.head h'.head hspaces
  refine ⟨hhead, operands_unambiguous hoperands h'.plain ?_⟩
  rw [hmore, hmore', hrest]

theorem Token.IsOperator.like {t t' : Token} (h : t.IsOperator) (h' : t'.IsOperator)
    (hlexeme : t'.lexeme.toList = t.lexeme.toList) : t.Like AnyLine t' :=
  h.lexed.like h'.lexed (String.toList_injective hlexeme)

theorem forall₂_one {es : List Expr} (h : List.Forall₂ (Expr.Like AnyLine) [e] es)
    (hes : es = [e']) : e.Like AnyLine e' := by
  rw [hes, List.forall₂_cons] at h
  exact h.1

theorem forall₂_two {f f' : Expr} {es : List Expr}
    (h : List.Forall₂ (Expr.Like AnyLine) [e, f] es) (hes : es = [e', f']) :
    e.Like AnyLine e' ∧ f.Like AnyLine f' := by
  rw [hes, List.forall₂_cons, List.forall₂_cons] at h
  exact ⟨h.1, h.2.1⟩

/-- Trees with the same head and operands that are alike are alike. The number of operands tells
unary operators from binary ones, and the head tells operators from assignments and groups. -/
theorem Expr.Plain.like_of_parts (h : e.Plain) (h' : e'.Plain)
    (hparts : e.parts? = some (head, operands)) (hparts' : e'.parts? = some (head, operands'))
    (hlike : List.Forall₂ (Expr.Like AnyLine) operands operands') : e.Like AnyLine e' := by
  have harity := hlike.length_eq
  cases e with
  | assign name value =>
    cases hparts
    cases e' with
    | assign name' value' =>
      cases hparts'
      obtain ⟨hname, hvalue⟩ := forall₂_two hlike rfl
      cases hname with
      | reference hname => exact .assign hname hvalue
    | binary left' operator' right' =>
      obtain ⟨hhead, -⟩ := Prod.mk.inj (Option.some.inj hparts')
      exact absurd hhead h'.2.1.lexeme.2.1
    | grouping | unary =>
      obtain ⟨-, rfl⟩ := Prod.mk.inj (Option.some.inj hparts')
      cases harity
    | literal | reference | foreign => cases hparts'
  | binary left operator right =>
    cases hparts
    cases e' with
    | assign name' value' =>
      obtain ⟨hhead, -⟩ := Prod.mk.inj (Option.some.inj hparts')
      exact absurd hhead.symm h.2.1.lexeme.2.1
    | binary left' operator' right' =>
      obtain ⟨hhead, hoperands⟩ := Prod.mk.inj (Option.some.inj hparts')
      obtain ⟨hleft, hright⟩ := forall₂_two hlike hoperands.symm
      exact .binary hleft (h.2.1.like h'.2.1 hhead) hright
    | grouping | unary =>
      obtain ⟨-, rfl⟩ := Prod.mk.inj (Option.some.inj hparts')
      cases harity
    | literal | reference | foreign => cases hparts'
  | grouping inner =>
    cases hparts
    cases e' with
    | grouping inner' =>
      cases hparts'
      exact .grouping (forall₂_one hlike rfl)
    | unary operator' right' =>
      obtain ⟨hhead, -⟩ := Prod.mk.inj (Option.some.inj hparts')
      exact absurd hhead h'.1.lexeme.2.2
    | assign | binary =>
      obtain ⟨-, rfl⟩ := Prod.mk.inj (Option.some.inj hparts')
      cases harity
    | literal | reference | foreign => cases hparts'
  | unary operator right =>
    cases hparts
    cases e' with
    | grouping inner' =>
      obtain ⟨hhead, -⟩ := Prod.mk.inj (Option.some.inj hparts')
      exact absurd hhead.symm h.1.lexeme.2.2
    | unary operator' right' =>
      obtain ⟨hhead, hoperands⟩ := Prod.mk.inj (Option.some.inj hparts')
      exact .unary (h.1.like h'.1 hhead) (forall₂_one hlike hoperands.symm)
    | assign | binary =>
      obtain ⟨-, rfl⟩ := Prod.mk.inj (Option.some.inj hparts')
      cases harity
    | literal | reference | foreign => cases hparts'
  | literal | reference | foreign => cases hparts

theorem sizeOf_lt_of_mem_parts (hparts : e.parts? = some (head, operands)) :
    ∀ operand ∈ operands, sizeOf operand < sizeOf e := by
  cases e with
  | assign name value =>
    cases hparts
    have hpos : 0 < sizeOf value := by cases value <;> simp
    simp
    omega
  | binary left operator right =>
    cases hparts
    simp
    omega
  | grouping | unary =>
    cases hparts
    simp
  | literal | reference | foreign => cases hparts

/-- Whatever follows the text of a plain tree, it ends in one place only and shows the tree but for
the lines of its tokens. -/
theorem Expr.Plain.unambiguous (h : e.Plain) : e.Unambiguous := by
  -- The operands of a tree are smaller than the tree.
  induction hsize : sizeOf e using Nat.strongRecOn generalizing e with
  | ind n ih =>
    intro e' r r' h' hr hr' heq
    cases hparts : e.parts? with
    | none =>
      cases hparts' : e'.parts? with
      | none => exact h.unambiguous_atom h' hparts hparts' hr hr' heq
      | some parts' =>
        refine absurd ?_ (h.head?_of_atom hparts r)
        rw [heq, h'.letters_of_parts hparts']
        rfl
    | some parts =>
      cases hparts' : e'.parts? with
      | none =>
        refine absurd ?_ (h'.head?_of_atom hparts' r')
        rw [← heq, h.letters_of_parts hparts]
        rfl
      | some parts' =>
        rw [h.letters_of_parts hparts, h'.letters_of_parts hparts'] at heq
        have hoperands : ∀ operand ∈ parts.2, operand.Unambiguous := by
          intro operand hmem
          have hlt := hsize ▸ sizeOf_lt_of_mem_parts hparts operand hmem
          exact ih _ hlt ((h.enclosable hparts).plain operand hmem) rfl
        obtain ⟨hhead, hlike, hrest⟩ :=
          (h.enclosable hparts).unambiguous (h'.enclosable hparts') hoperands heq
        have hparts' : e'.parts? = some (parts.1, parts'.2) := by rw [hparts', hhead]
        exact ⟨h.like_of_parts h' hparts hparts' hlike, hrest⟩

end Enclosed

end LoxLang
