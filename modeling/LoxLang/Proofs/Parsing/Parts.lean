import LoxLang.Proofs.Grammar

/-!
The parts of expressions, and what may stand in their place.

A part of an expression stands in it for a row of tokens (`Holds`); the name that is assigned to is no
part. In its place there may stand every primary phrase, so that a part may be put in parentheses
wherever it stands (`Holds.replace`). Apart from groupings the tree remains the same.
-/

set_option autoImplicit false
set_option relaxedAutoImplicit false

namespace LoxLang

open Token.Kind

/-! ### Trees -/

/-- The tree without its groupings. -/
def Expr.ungrouped : Expr → Expr
  | assign name value => assign name value.ungrouped
  | binary left operator right => binary left.ungrouped operator right.ungrouped
  | grouping inner => inner.ungrouped
  | unary operator right => unary operator right.ungrouped
  | literal value => literal value
  | reference name => reference name
  | foreign node => foreign node

def Stmt.ungrouped : Stmt → Stmt
  | print value => print value.ungrouped
  | expression value => expression value.ungrouped
  | var name initial => var name (initial.map Expr.ungrouped)
  | foreign node => foreign node

namespace Grammar

/-! ### Phrases of parts -/

section

variable (vs : List Token) (f : Expr)

/-- `Holds vs f n us ws e`: the tokens `us`, `vs` and `ws` in a row are a phrase of `n` that spells `e`,
in which `vs` are the tokens of the part `f`. -/
inductive Holds : Nonterminal → List Token → List Token → Expr → Prop
  | whole {n : Nonterminal} (h : Derives n vs f) : Holds n [] [] f
  | expression {us ws : List Token} {e : Expr} (h : Holds .assignment us ws e) :
    Holds .expression us ws e
  | assign {name sign : Token} {us ws : List Token} {e : Expr} (hname : name.kind = identifier)
    (hsign : sign.kind = equal) (h : Holds .assignment us ws e) :
    Holds .assignment (name :: sign :: us) ws (.assign name e)
  | equality {us ws : List Token} {e : Expr} (h : Holds (.tier .equality) us ws e) :
    Holds .assignment us ws e
  | operand {t : Tier} {us ws : List Token} {e : Expr} (h : Holds t.operand us ws e) :
    Holds (.tier t) us ws e
  | left {t : Tier} {us ws rs : List Token} {l r : Expr} {operator : Token}
    (hl : Holds (.tier t) us ws l) (hoperator : operator.kind ∈ t.operators)
    (hr : Derives t.operand rs r) :
    Holds (.tier t) us (ws ++ operator :: rs) (.binary l operator r)
  | right {t : Tier} {ls us ws : List Token} {l r : Expr} {operator : Token}
    (hl : Derives (.tier t) ls l) (hoperator : operator.kind ∈ t.operators)
    (hr : Holds t.operand us ws r) :
    Holds (.tier t) (ls ++ operator :: us) ws (.binary l operator r)
  | unary {operator : Token} {us ws : List Token} {e : Expr}
    (hoperator : operator.kind = bang ∨ operator.kind = minus) (h : Holds .unary us ws e) :
    Holds .unary (operator :: us) ws (.unary operator e)
  | primary {us ws : List Token} {e : Expr} (h : Holds .primary us ws e) : Holds .unary us ws e
  | grouping {opening closing : Token} {us ws : List Token} {e : Expr}
    (hopening : opening.kind = leftParen) (h : Holds .expression us ws e)
    (hclosing : closing.kind = rightParen) :
    Holds .primary (opening :: us) (ws ++ [closing]) (.grouping e)

/-- `vs` are the tokens of the part `f` of a declaration. -/
inductive DeclarationHolds : List Token → List Token → Stmt → Prop
  | print {keyword mark : Token} {us ws : List Token} {e : Expr} (hkeyword : keyword.kind = kwPrint)
    (h : Holds vs f .expression us ws e) (hmark : mark.kind = semicolon) :
    DeclarationHolds (keyword :: us) (ws ++ [mark]) (.print e)
  | expression {mark : Token} {us ws : List Token} {e : Expr} (h : Holds vs f .expression us ws e)
    (hmark : mark.kind = semicolon) :
    DeclarationHolds us (ws ++ [mark]) (.expression e)
  | var {keyword name sign mark : Token} {us ws : List Token} {e : Expr}
    (hkeyword : keyword.kind = kwVar) (hname : name.kind = identifier)
    (hsign : sign.kind = equal) (h : Holds vs f .expression us ws e)
    (hmark : mark.kind = semicolon) :
    DeclarationHolds (keyword :: name :: sign :: us) (ws ++ [mark]) (.var name (some e))

/-- `vs` are the tokens of the part `f` of a program. -/
inductive ProgramHolds : List Token → List Token → List Stmt → Prop
  | first {us ws rest : List Token} {s : Stmt} {ss : List Stmt} (h : DeclarationHolds vs f us ws s)
    (hs : Program rest ss) : ProgramHolds us (ws ++ rest) (s :: ss)
  | later {first us ws : List Token} {s : Stmt} {ss : List Stmt} (h : Declaration first s)
    (hs : ProgramHolds us ws ss) : ProgramHolds (first ++ us) ws (s :: ss)

end

section

variable {n : Nonterminal} {us vs ws : List Token} {e f : Expr} {s : Stmt} {ss : List Stmt}

theorem Holds.derives (h : Holds vs f n us ws e) : Derives n (us ++ vs ++ ws) e := by
  induction h with
  | whole h => simpa using h
  | expression _ ih => exact .expression ih
  | assign hname hsign _ ih => exact .assign hname hsign ih
  | equality _ ih => exact .equality ih
  | operand _ ih => exact .operand ih
  | left _ hoperator hr ih => simpa using ih.binary hoperator hr
  | right hl hoperator _ ih => simpa using hl.binary hoperator ih
  | unary hoperator _ ih => exact .unary hoperator ih
  | primary _ ih => exact .primary ih
  | grouping hopening _ hclosing ih => simpa using Derives.grouping hopening ih hclosing

theorem DeclarationHolds.declaration (h : DeclarationHolds vs f us ws s) :
    Declaration (us ++ vs ++ ws) s := by
  cases h with
  | print hkeyword h hmark => simpa using Declaration.statement (.print hkeyword h.derives hmark)
  | expression h hmark => simpa using Declaration.statement (.expression h.derives hmark)
  | var hkeyword hname hsign h hmark =>
    simpa using Declaration.varInitial hkeyword hname hsign h.derives hmark

theorem ProgramHolds.program (h : ProgramHolds vs f us ws ss) : Program (us ++ vs ++ ws) ss := by
  induction h with
  | first h hs => simpa using Program.cons h.declaration hs
  | later h _ ih => simpa using Program.cons h ih

end

/-! ### Another phrase in the place of a part -/

theorem Derives.of_primary {ts : List Token} {e : Expr} (h : Derives .primary ts e)
    (n : Nonterminal) : Derives n ts e := by
  have hunary : Derives .unary ts e := .primary h
  have hfactor : Derives (.tier .factor) ts e := .operand hunary
  have hterm : Derives (.tier .term) ts e := .operand hfactor
  have hcomparison : Derives (.tier .comparison) ts e := .operand hterm
  have hequality : Derives (.tier .equality) ts e := .operand hcomparison
  match n with
  | .expression => exact .expression (.equality hequality)
  | .assignment => exact .equality hequality
  | .tier .equality => exact hequality
  | .tier .comparison => exact hcomparison
  | .tier .term => exact hterm
  | .tier .factor => exact hfactor
  | .unary => exact hunary
  | .primary => exact h

theorem Derives.expression_of {n : Nonterminal} {ts : List Token} {e : Expr} (h : Derives n ts e) :
    Derives .expression ts e := by
  have hequality : Derives (.tier .equality) ts e → Derives .expression ts e :=
    fun h ↦ .expression (.equality h)
  have hcomparison : Derives (.tier .comparison) ts e → Derives .expression ts e :=
    fun h ↦ hequality (.operand h)
  have hterm : Derives (.tier .term) ts e → Derives .expression ts e :=
    fun h ↦ hcomparison (.operand h)
  have hfactor : Derives (.tier .factor) ts e → Derives .expression ts e :=
    fun h ↦ hterm (.operand h)
  match n, h with
  | .expression, h => exact h
  | .assignment, h => exact .expression h
  | .tier .equality, h => exact hequality h
  | .tier .comparison, h => exact hcomparison h
  | .tier .term, h => exact hterm h
  | .tier .factor, h => exact hfactor h
  | .unary, h => exact hfactor (.operand h)
  | .primary, h => exact h.of_primary .expression

section

variable {n : Nonterminal} {us vs ws vs' : List Token} {e f f' : Expr} {s : Stmt} {ss : List Stmt}

theorem Holds.part (h : Holds vs f n us ws e) : Derives .expression vs f := by
  induction h with
  | whole h => exact h.expression_of
  | expression _ ih | assign _ _ _ ih | equality _ ih | operand _ ih | left _ _ _ ih
  | right _ _ _ ih | unary _ _ ih | primary _ ih | grouping _ _ _ ih => exact ih

theorem ProgramHolds.part (h : ProgramHolds vs f us ws ss) : Derives .expression vs f := by
  induction h with
  | first h _ =>
    cases h with
    | print _ h _ | expression h _ | var _ _ _ h _ => exact h.part
  | later _ _ ih => exact ih

/-- Every primary phrase may stand in the place of a part. -/
theorem Holds.replace (h : Holds vs f n us ws e) (hf : Derives .primary vs' f')
    (hsame : f'.ungrouped = f.ungrouped) :
    ∃ e', Derives n (us ++ vs' ++ ws) e' ∧ e'.ungrouped = e.ungrouped := by
  induction h with
  | @whole n _ => exact ⟨f', by simpa using hf.of_primary n, hsame⟩
  | expression _ ih =>
    obtain ⟨e', h, he⟩ := ih
    exact ⟨e', .expression h, he⟩
  | equality _ ih =>
    obtain ⟨e', h, he⟩ := ih
    exact ⟨e', .equality h, he⟩
  | operand _ ih =>
    obtain ⟨e', h, he⟩ := ih
    exact ⟨e', .operand h, he⟩
  | primary _ ih =>
    obtain ⟨e', h, he⟩ := ih
    exact ⟨e', .primary h, he⟩
  | @assign name sign us ws e hname hsign _ ih =>
    obtain ⟨e', h, he⟩ := ih
    exact ⟨.assign name e', .assign hname hsign h, by rw [Expr.ungrouped, he]; rfl⟩
  | @left t us ws rs l r operator _ hoperator hr ih =>
    obtain ⟨l', h, hl⟩ := ih
    refine ⟨.binary l' operator r, by simpa using h.binary hoperator hr, ?_⟩
    rw [Expr.ungrouped, hl]
    rfl
  | @right t ls us ws l r operator hl hoperator _ ih =>
    obtain ⟨r', h, hr⟩ := ih
    refine ⟨.binary l operator r', by simpa using hl.binary hoperator h, ?_⟩
    rw [Expr.ungrouped, hr]
    rfl
  | @unary operator us ws e hoperator _ ih =>
    obtain ⟨e', h, he⟩ := ih
    exact ⟨.unary operator e', .unary hoperator h, by rw [Expr.ungrouped, he]; rfl⟩
  | grouping hopening _ hclosing ih =>
    obtain ⟨e', h, he⟩ := ih
    exact ⟨.grouping e', by simpa using Derives.grouping hopening h hclosing, he⟩

theorem DeclarationHolds.replace (h : DeclarationHolds vs f us ws s) (hf : Derives .primary vs' f')
    (hsame : f'.ungrouped = f.ungrouped) :
    ∃ s', Declaration (us ++ vs' ++ ws) s' ∧ s'.ungrouped = s.ungrouped := by
  cases h with
  | print hkeyword h hmark =>
    obtain ⟨e', h, he⟩ := h.replace hf hsame
    exact ⟨.print e', by simpa using Declaration.statement (.print hkeyword h hmark),
      congrArg Stmt.print he⟩
  | expression h hmark =>
    obtain ⟨e', h, he⟩ := h.replace hf hsame
    exact ⟨.expression e', by simpa using Declaration.statement (.expression h hmark),
      congrArg Stmt.expression he⟩
  | @var keyword name sign mark us ws e hkeyword hname hsign h hmark =>
    obtain ⟨e', h, he⟩ := h.replace hf hsame
    exact ⟨.var name (some e'), by simpa using Declaration.varInitial hkeyword hname hsign h hmark,
      congrArg (fun e ↦ Stmt.var name (some e)) he⟩

theorem ProgramHolds.replace (h : ProgramHolds vs f us ws ss) (hf : Derives .primary vs' f')
    (hsame : f'.ungrouped = f.ungrouped) :
    ∃ ss', Program (us ++ vs' ++ ws) ss' ∧ ss'.map Stmt.ungrouped = ss.map Stmt.ungrouped := by
  induction h with
  | @first us ws rest s ss h hs =>
    obtain ⟨s', h, hs'⟩ := h.replace hf hsame
    exact ⟨s' :: ss, by simpa using Program.cons h hs, by rw [List.map_cons, hs']; rfl⟩
  | @later first us ws s ss h _ ih =>
    obtain ⟨ss', hss, hss'⟩ := ih
    exact ⟨s :: ss', by simpa using Program.cons h hss, by rw [List.map_cons, hss']; rfl⟩

/-- Every part may be put in parentheses. -/
theorem ProgramHolds.enclose (h : ProgramHolds vs f us ws ss) {opening closing : Token}
    (hopening : opening.kind = leftParen) (hclosing : closing.kind = rightParen) :
    ∃ ss', Program (us ++ (opening :: vs ++ [closing]) ++ ws) ss' ∧
      ss'.map Stmt.ungrouped = ss.map Stmt.ungrouped :=
  h.replace (.grouping hopening h.part hclosing) rfl

end

end Grammar

end LoxLang
