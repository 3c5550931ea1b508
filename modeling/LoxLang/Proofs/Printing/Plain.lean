import LoxLang.Proofs.Decimal.Unsigned
import LoxLang.Proofs.Lexing.Numerals
import LoxLang.Proofs.Lexing.Spacing
import LoxLang.Proofs.Lexing.Uniqueness
import LoxLang.Proofs.Running.Endings
import LoxLang.Proofs.Running.Joining

/-!
The trees that a text spells, once its overflowed literals are named.

The tokens of a text are determined by their lexemes (`Token.Lexed.like`), and its literals have no
sign, no quotation mark inside and not too many digits (`Token.Lexed.plain_literal`). So the trees
of a text are plain (`Grammar.Program.plain`), but for the literals beyond the greatest
floating-point number. These are infinite and have the same prefix form as a variable of the name
`inf`, by which they are replaced (`Expr.nameOverflow`).
-/

set_option autoImplicit false
set_option relaxedAutoImplicit false

namespace LoxLang

open Source Token.Kind Grammar

/-! ### Literals that are too great -/

/-- Whether a literal is beyond the greatest floating-point number. -/
def Value.isOverflow : Value → Bool
  | float x => Decimal.Double.ofFloat x == .infinite false
  | _ => false

/-- A variable of the name that an overflowed literal is written as. -/
def infinityName : Token :=
  ⟨identifier, "inf", .nil, 0⟩

/-- The tree with a variable in the place of each overflowed literal. -/
def Expr.nameOverflow : Expr → Expr
  | assign name value => assign name value.nameOverflow
  | binary left operator right => binary left.nameOverflow operator right.nameOverflow
  | grouping inner => grouping inner.nameOverflow
  | literal value => if value.isOverflow then reference infinityName else literal value
  | unary operator right => unary operator right.nameOverflow
  | reference name => reference name
  | foreign node => foreign node

def Stmt.nameOverflow : Stmt → Stmt
  | print value => print value.nameOverflow
  | expression value => expression value.nameOverflow
  | var name initial => var name (initial.map Expr.nameOverflow)
  | foreign node => foreign node

theorem Value.literalText_of_isOverflow {v : Value} (h : v.isOverflow = true) :
    v.literalText = .ok infinityName.lexeme := by
  cases v with
  | float x =>
    have hinfinite : Decimal.Double.ofFloat x = .infinite false := by
      simpa [isOverflow] using h
    simp [literalText, Decimal.Layout.write, hinfinite, infinityName]
  | _ => cases h

example : (Value.float (Float.ofScientific (10 ^ 310) true 1)).isOverflow = true := by
  decide +kernel

/-- An overflowed literal and a variable of the name `inf` have the same prefix form. -/
@[simp] theorem Expr.prefixForm_nameOverflow (e : Expr) :
    e.nameOverflow.prefixForm = e.prefixForm := by
  induction e with
  | assign _ _ ih => simp only [nameOverflow, prefixForm, ih]
  | binary _ _ _ ihl ihr => simp only [nameOverflow, prefixForm, ihl, ihr]
  | grouping _ ih => simp only [nameOverflow, prefixForm, ih]
  | literal value =>
    unfold nameOverflow
    split
    · next h => rw [prefixForm, prefixForm, Value.literalText_of_isOverflow h]
    · rfl
  | unary _ _ ih => simp only [nameOverflow, prefixForm, ih]
  | reference | foreign => rfl

@[simp] theorem Stmt.prefixForm_nameOverflow (s : Stmt) :
    s.nameOverflow.prefixForm = s.prefixForm := by
  cases s with
  | print | expression => simp only [nameOverflow, prefixForm, Expr.prefixForm_nameOverflow]
  | var name initial =>
    cases initial <;> simp only [nameOverflow, prefixForm, Option.map, Expr.prefixForm_nameOverflow]
  | foreign => rfl

/-! ### Tokens of a text -/

/-- The token is read from some text. -/
def Token.Lexed (t : Token) : Prop :=
  ∃ p : Piece, p.Readable ∧ p.Gives t

theorem Source.Piece.lexed_of_gives {qs : List Piece} {ts : List Token}
    (h : List.Forall₂ Gives qs ts) (hread : ∀ q ∈ qs, q.Readable) : ∀ t ∈ ts, t.Lexed := by
  induction h with
  | nil => simp
  | cons hgives _ ih =>
    obtain ⟨hq, hqs⟩ := List.forall_mem_cons.mp hread
    exact List.forall_mem_cons.mpr ⟨⟨_, hq, hgives⟩, ih hqs⟩

theorem Source.lexed_of_tokenize {source : String} {front : List Token} {final : Token}
    (h : tokenize source = .ok (front ++ [final])) : ∀ t ∈ front, t.Lexed := by
  obtain ⟨qs, front', hreads, htokens, hgives⟩ := Piece.reads_of_tokenize h
  obtain ⟨rfl, -⟩ := List.append_inj' htokens rfl
  exact Piece.lexed_of_gives hgives fun q hq ↦ (hreads.readable q hq).2

/-- What a literal of a text is. A number has no sign, a whole number can be written, and a string
has no quotation mark inside. -/
def Value.Plain : Value → Prop
  | nil | bool _ => True
  | integer n => ∃ k : ℕ, n = k ∧ isTooLong n = false
  | float x => Decimal.Unsigned x
  | string s => '"' ∉ s.toList

/-- A whole number of a text can be written, as it has not more digits than are read. -/
theorem Source.isTooLong_numberOf {digits : List Char} (h : ∀ c ∈ digits, isDigit c = true)
    (hlength : digits.length ≤ Decimal.digitLimit) :
    Value.isTooLong (Piece.numberOf digits : ℤ) = false := by
  have hvalues : ∀ d ∈ digits.reverse.map Piece.digitOf, d < 10 := by
    intro d hd
    obtain ⟨c, hc, rfl⟩ := List.mem_map.mp hd
    have hbounds := toNat_of_isDigit (h c (List.mem_reverse.mp hc))
    show c.toNat - 48 < 10
    omega
  have hnumber : Piece.numberOf digits < 10 ^ digits.length := by
    simpa [Piece.numberOf] using Nat.ofDigits_lt_base_pow_length (by decide : 1 < 10) hvalues
  have hdigits : (Nat.digits 10 (Piece.numberOf digits)).length ≤ digits.length :=
    (Nat.digits_length_le_iff (by decide) _).mpr hnumber
  rw [← Bool.not_eq_true, isTooLong_iff, Int.natAbs_natCast]
  omega

namespace Token.Lexed

variable {t t' : Token}

/-- The lexeme determines the token but for its line. -/
theorem like (h : t.Lexed) (h' : t'.Lexed) (hlexeme : t'.lexeme = t.lexeme) :
    t.Like AnyLine t' := by
  obtain ⟨p, -, hp⟩ := h
  obtain ⟨q, -, hq⟩ := h'
  rw [hp.lexeme, hq.lexeme] at hlexeme
  obtain rfl := Piece.ext_text (String.ofList_injective hlexeme)
  exact hp.like hq

/-- Words are no operators. -/
theorem mem_marks (h : t.Lexed) (hkind : t.kind ∈ Piece.marks.map Prod.fst) :
    (t.kind, t.lexeme.toList) ∈ Piece.marks := by
  obtain ⟨⟨form, text, spells⟩, -, hp⟩ := h
  have hpiece := hp.kind
  rw [hp.lexeme, String.toList_ofList]
  cases spells with
  | mark hmark =>
    obtain rfl := Option.some.inj hpiece
    exact hmark
  | @word c cs hc hcs =>
    have hword : t.kind ∈ identifier :: keywords.map Prod.snd := by
      rw [← Option.some.inj hpiece]
      exact Piece.ofWord_mem _
    have hdisjoint : ∀ k ∈ identifier :: keywords.map Prod.snd, k ∉ Piece.marks.map Prod.fst := by
      decide
    exact absurd hkind (hdisjoint _ hword)
  | string | integer | fraction =>
    rw [← Option.some.inj hpiece] at hkind
    exact absurd hkind (by decide)
  | blank | lineComment | blockComment => cases hpiece

/-- A name is a word that is not reserved. -/
theorem word (h : t.Lexed) (hkind : t.kind = identifier) :
    Piece.Form.word.Spells t.lexeme.toList ∧ ofWord t.lexeme = identifier := by
  obtain ⟨⟨form, text, spells⟩, -, hp⟩ := h
  have hpiece := hp.kind
  rw [hkind] at hpiece
  rw [hp.lexeme, String.toList_ofList]
  cases spells with
  | mark hmark =>
    have hmarks : ∀ m ∈ Piece.marks, m.1 ≠ identifier := by decide
    exact absurd (Option.some.inj hpiece) (hmarks _ hmark)
  | word hc hcs => exact ⟨.word hc hcs, Option.some.inj hpiece⟩
  | _ => cases hpiece

theorem plain_literal (h : t.Lexed) : t.literal.Plain := by
  obtain ⟨⟨form, text, spells⟩, hread, hp⟩ := h
  rw [hp.literal]
  cases spells with
  | integer hne hdigits =>
    exact ⟨_, rfl, isTooLong_numberOf hdigits (hread rfl)⟩
  | fraction => exact Decimal.unsigned_ofScientific _ _
  | @string body hbody => simpa [Piece.literal, Value.Plain] using hbody
  | mark | word | blank | lineComment | blockComment => trivial

end Token.Lexed

/-! ### Plain trees -/

/-- The operators that stand in trees. -/
def operatorKinds : List Token.Kind :=
  bang :: [Tier.equality, .comparison, .term, .factor].flatMap Tier.operators

theorem mem_operatorKinds {t : Tier} {kind : Token.Kind} (h : kind ∈ t.operators) :
    kind ∈ operatorKinds := by
  refine List.mem_cons_of_mem _ (List.mem_flatMap.mpr ⟨t, ?_, h⟩)
  cases t <;> decide

/-- A token that is a name. -/
structure Token.IsName (t : Token) : Prop where
  lexed : t.Lexed
  kind : t.kind = identifier

structure Token.IsOperator (t : Token) : Prop where
  lexed : t.Lexed
  kind : t.kind ∈ operatorKinds

/-- The tree is one of a text without overflowed literals. -/
def Expr.Plain : Expr → Prop
  | assign name value => name.IsName ∧ value.Plain
  | binary left operator right => left.Plain ∧ operator.IsOperator ∧ right.Plain
  | grouping inner => inner.Plain
  | literal value => value.Plain ∧ value.isOverflow = false
  | unary operator right => operator.IsOperator ∧ right.Plain
  | reference name => name.IsName
  | foreign _ => False

def Stmt.Plain : Stmt → Prop
  | print value => value.Plain
  | expression value => value.Plain
  | var name initial => name.IsName ∧ ∀ e ∈ initial, e.Plain
  | foreign _ => False

theorem isName_infinityName : infinityName.IsName := by
  have hword : Piece.Form.word.Spells ['i', 'n', 'f'] :=
    .word (by decide) (List.all_eq_true.mp (by decide))
  have hkind : ofWord (String.ofList ['i', 'n', 'f']) = identifier := by decide
  refine ⟨⟨⟨.word, _, hword⟩, by simp [Piece.Readable], ?_⟩, rfl⟩
  exact ⟨by simp [Piece.kind?, hkind, infinityName], rfl, rfl⟩

theorem plain_nameOverflow_literal {v : Value} (h : v.Plain) :
    (Expr.literal v).nameOverflow.Plain := by
  unfold Expr.nameOverflow
  split
  · exact isName_infinityName
  · next hfinite => exact ⟨h, by simpa using hfinite⟩

theorem Grammar.Derives.plain {n : Nonterminal} {ts : List Token} {e : Expr} (h : Derives n ts e)
    (hts : ∀ t ∈ ts, t.Lexed) : e.nameOverflow.Plain := by
  induction h with
  | expression _ ih | equality _ ih | operand _ ih | primary _ ih => exact ih hts
  | assign hname _ _ ih => exact ⟨⟨hts _ (by simp), hname⟩, ih fun t ht ↦ hts t (by simp [ht])⟩
  | binary _ hoperator _ ihl ihr =>
    exact ⟨ihl fun t ht ↦ hts t (by simp [ht]), ⟨hts _ (by simp), mem_operatorKinds hoperator⟩,
      ihr fun t ht ↦ hts t (by simp [ht])⟩
  | unary hoperator _ ih =>
    refine ⟨⟨hts _ (by simp), ?_⟩, ih fun t ht ↦ hts t (by simp [ht])⟩
    rcases hoperator with h | h <;> rw [h] <;> decide
  | true | false | nil => exact plain_nameOverflow_literal trivial
  | number | string => exact plain_nameOverflow_literal (hts _ (by simp)).plain_literal
  | reference hname => exact ⟨hts _ (by simp), hname⟩
  | grouping _ _ _ ih => exact ih fun t ht ↦ hts t (by simp [ht])

theorem Grammar.Declaration.plain {ts : List Token} {s : Stmt} (h : Declaration ts s)
    (hts : ∀ t ∈ ts, t.Lexed) : s.nameOverflow.Plain := by
  cases h with
  | var _ hname _ => exact ⟨⟨hts _ (by simp), hname⟩, by simp⟩
  | varInitial _ hname _ h _ =>
    refine ⟨⟨hts _ (by simp), hname⟩, fun e he ↦ ?_⟩
    obtain rfl := Option.some.inj he
    exact h.plain fun t ht ↦ hts t (by simp [ht])
  | statement h =>
    cases h with
    | print _ h _ => exact h.plain fun t ht ↦ hts t (by simp [ht])
    | expression h _ => exact h.plain fun t ht ↦ hts t (by simp [ht])

theorem Grammar.Program.plain {ts : List Token} {ss : List Stmt} (h : Program ts ss)
    (hts : ∀ t ∈ ts, t.Lexed) : ∀ s ∈ ss, s.nameOverflow.Plain := by
  induction h with
  | nil => simp
  | cons h _ ih =>
    refine List.forall_mem_cons.mpr ⟨?_, ?_⟩
    · exact h.plain fun t ht ↦ hts t (by simp [ht])
    · exact ih fun t ht ↦ hts t (by simp [ht])

/-- The trees of a text are plain once their overflowed literals are named. -/
theorem plain_of_programOf {source : String} {ss : List Stmt} (h : programOf source = .ok ss) :
    ∀ s ∈ ss, s.nameOverflow.Plain := by
  obtain ⟨tokens, htokens, hparse⟩ := programOf_eq_ok h
  obtain ⟨front, final, rfl, hfront, hfinal, -⟩ := tokenize_join htokens
  have hprogram : Program front ss := program_of_parse hfront hfinal hparse
  exact hprogram.plain (lexed_of_tokenize htokens)

end LoxLang
