import LoxLang.Proofs.Arithmetic.Spelling
import LoxLang.Proofs.Running.Endings
import LoxLang.Proofs.Running.Joining

/-!
Whole-number arithmetic is exact from the text of an expression to the text that is printed.

The pieces of a tree of arithmetic are parsed to an expression of the same shape (`Represents`,
`readsAs_pieces`). By induction on the tree, that expression evaluates to the value that the tree
denotes, or it fails at the first division by zero (`Represents.evaluates`), and a whole number that
is not too long is printed with all its digits (`run_printed`).
-/

set_option autoImplicit false
set_option relaxedAutoImplicit false

namespace LoxLang

open Source Grammar
open Decimal (digitLimit)

/-! ### Rows side by side -/

theorem exists_append_of_forall₂ {α β : Type} {R : α → β → Prop} {xs xs' : List α} {zs : List β}
    (h : List.Forall₂ R (xs ++ xs') zs) :
    ∃ ys ys', zs = ys ++ ys' ∧ List.Forall₂ R xs ys ∧ List.Forall₂ R xs' ys' := by
  induction xs generalizing zs with
  | nil => exact ⟨[], zs, rfl, .nil, h⟩
  | cons x xs ih =>
    obtain ⟨y, rest, hy, hrest, rfl⟩ := List.forall₂_cons_left_iff.mp h
    obtain ⟨ys, ys', rfl, hys, hys'⟩ := ih hrest
    exact ⟨y :: ys, ys', rfl, .cons hy hys, hys'⟩

theorem exists_singleton_of_forall₂ {α β : Type} {R : α → β → Prop} {x : α} {zs : List β}
    (h : List.Forall₂ R [x] zs) : ∃ z, zs = [z] ∧ R x z := by
  obtain ⟨z, rest, hz, hrest, rfl⟩ := List.forall₂_cons_left_iff.mp h
  obtain rfl := List.forall₂_nil_left_iff.mp hrest
  exact ⟨z, rfl, hz⟩

/-! ### Digits -/

/-- A whole number that is not too long is printed with all its digits. -/
theorem Value.integerText_eq_ok {n : ℤ} (h : isTooLong n = false) :
    integerText n = .ok (toString n) := by
  rw [integerText, h]
  cases n <;> simp [Int.toString_eq_repr, Int.repr, Nat.repr]

namespace Arithmetic

open Piece

variable {a b : Arithmetic} {op : Operator} {e l r : Expr} {t : Token} {ss ts us vs : List Token}

/-! ### From pieces to expressions -/

/-- The tokens that divide. -/
def slashesOf (ts : List Token) : List Token :=
  ts.filter fun t ↦ t.kind = .slash

@[simp] theorem slashesOf_nil : slashesOf [] = [] := rfl

theorem slashesOf_append (us vs : List Token) :
    slashesOf (us ++ vs) = slashesOf us ++ slashesOf vs :=
  List.filter_append us vs

theorem slashesOf_cons_of_ne (ht : t.kind ≠ .slash) (ts : List Token) :
    slashesOf (t :: ts) = slashesOf ts :=
  List.filter_cons_of_neg (by simpa using ht)

/-- The expression has the shape of the tree, apart from parentheses around any part of it, and it
divides by the tokens `ss`, from left to right. -/
inductive Represents : Arithmetic → Expr → List Token → Prop
  | number (n : Numeral) :
    Represents (number n) (.literal (.integer (numberOf n.digits))) []
  | negation {a : Arithmetic} {e : Expr} {t : Token} {ss : List Token} (ht : t.kind = .minus)
    (h : Represents a e ss) : Represents (negation a) (.unary t e) ss
  | operation {op : Operator} {a b : Arithmetic} {l r : Expr} {t : Token} {ss ss' : List Token}
    (ht : t.kind = op.kind) (ha : Represents a l ss) (hb : Represents b r ss') :
    Represents (operation op a b) (.binary l t r) (ss ++ slashesOf [t] ++ ss')
  | parentheses {a : Arithmetic} {e : Expr} {ss : List Token} (h : Represents a e ss) :
    Represents (parentheses a) (.grouping e) ss
  | enclosed {a : Arithmetic} {e : Expr} {ss : List Token} (h : Represents a e ss) :
    Represents a (.grouping e) ss

/-- What is read where a strength is asked for. -/
def level : ℕ → Nonterminal
  | 0 => .tier .term
  | 1 => .tier .factor
  | 2 => .unary
  | _ => .primary

def Operator.tier : Operator → Tier
  | plus | minus => .term
  | star | slash => .factor

theorem Operator.kind_mem (op : Operator) : op.kind ∈ op.tier.operators := by
  cases op <;> decide

theorem Operator.level_strength (op : Operator) : level op.strength = .tier op.tier := by
  cases op <;> rfl

theorem Operator.level_operand (op : Operator) : level (op.strength + 1) = op.tier.operand := by
  cases op <;> rfl

theorem derives_level_of_le {j k : ℕ} (hjk : j ≤ k) (h : Derives (level k) ts e) :
    Derives (level j) ts e := by
  induction hjk with
  | refl => exact h
  | @step k _ ih =>
    refine ih ?_
    match k with
    | 0 => exact .operand (t := .term) h
    | 1 => exact .operand (t := .factor) h
    | 2 => exact .primary h
    | k + 3 => exact h

theorem derives_level_of_primary (h : Derives .primary ts e) (k : ℕ) : Derives (level k) ts e :=
  derives_level_of_le (Nat.le_add_right k 3) h

theorem derives_expression (h : Derives (level 0) ts e) : Derives .expression ts e :=
  .expression (.equality (.operand (t := .equality) (.operand (t := .comparison) h)))

/-- Tokens of the pieces are read, where a strength of `least` is asked for, as the tree. -/
def ReadsAs (least : ℕ) (ps : List Piece) (a : Arithmetic) : Prop :=
  ∀ ts, List.Forall₂ Gives ps ts → ∃ e, Derives (level least) ts e ∧ Represents a e (slashesOf ts)

theorem kind_of_gives_mark {p : Piece} {kind : Token.Kind} (h : p.Gives t)
    (hp : p.form = .mark kind) : t.kind = kind := by
  have hkind := h.kind
  rw [kind?, hp] at hkind
  exact (Option.some.inj hkind).symm

variable {ps : List Piece} {k : ℕ}

/-- What is read anywhere is read in parentheses. -/
theorem ReadsAs.grouping (h : ReadsAs k ps a)
    (hts : List.Forall₂ Gives (opening :: ps ++ [closing]) ts) :
    ∃ e, Derives .primary ts (.grouping e) ∧ Represents a e (slashesOf ts) := by
  obtain ⟨inner, last, rfl, hinner, hlast⟩ := exists_append_of_forall₂ hts
  obtain ⟨first, middle, hfirst, hmiddle, rfl⟩ := List.forall₂_cons_left_iff.mp hinner
  obtain ⟨final, rfl, hfinal⟩ := exists_singleton_of_forall₂ hlast
  obtain ⟨e, he, hrepresents⟩ := h middle hmiddle
  have hopening : first.kind = .leftParen := kind_of_gives_mark hfirst rfl
  have hclosing : final.kind = .rightParen := kind_of_gives_mark hfinal rfl
  have hexpression := derives_expression (derives_level_of_le (Nat.zero_le k) he)
  refine ⟨e, .grouping hopening hexpression hclosing, ?_⟩
  rwa [slashesOf_append, slashesOf_cons_of_ne (by simp [hopening]),
    slashesOf_cons_of_ne (by simp [hclosing]), slashesOf_nil, List.append_nil]

theorem ReadsAs.enclosed (h : ReadsAs a.strength ps a) (least : ℕ) :
    ReadsAs least (enclosed least a.strength ps) a := by
  intro ts hts
  unfold Arithmetic.enclosed at hts
  split at hts
  · obtain ⟨e, he, hrepresents⟩ := h.grouping hts
    exact ⟨_, derives_level_of_primary he least, hrepresents.enclosed⟩
  · next hle =>
    obtain ⟨e, he, hrepresents⟩ := h ts hts
    exact ⟨e, derives_level_of_le (Nat.le_of_not_lt hle) he, hrepresents⟩

/-- The pieces of a tree are read as this tree. -/
theorem readsAs_pieces (a : Arithmetic) : ReadsAs a.strength a.pieces a := by
  induction a with
  | number n =>
    intro ts hts
    obtain ⟨t, rfl, ht⟩ := exists_singleton_of_forall₂ hts
    have hkind : t.kind = .number := (Option.some.inj ht.kind).symm
    have hliteral : t.literal = .integer (numberOf n.digits) := ht.literal
    refine ⟨.literal t.literal, .number hkind, ?_⟩
    rw [slashesOf_cons_of_ne (by simp [hkind]), hliteral]
    exact .number n
  | negation a ih =>
    intro ts hts
    obtain ⟨t, rest, ht, hrest, rfl⟩ := List.forall₂_cons_left_iff.mp hts
    obtain ⟨e, he, hrepresents⟩ := ih.enclosed 2 rest hrest
    have hkind : t.kind = .minus := kind_of_gives_mark ht rfl
    refine ⟨.unary t e, .unary (.inr hkind) he, ?_⟩
    rw [slashesOf_cons_of_ne (by simp [hkind])]
    exact .negation hkind hrepresents
  | operation op a b iha ihb =>
    intro ts hts
    obtain ⟨us, rest, rfl, hus, hrest⟩ := exists_append_of_forall₂ hts
    obtain ⟨t, vs, ht, hvs, rfl⟩ := List.forall₂_cons_left_iff.mp hrest
    obtain ⟨l, hl, hleft⟩ := iha.enclosed op.strength us hus
    obtain ⟨r, hr, hright⟩ := ihb.enclosed (op.strength + 1) vs hvs
    have hkind : t.kind = op.kind := kind_of_gives_mark ht rfl
    rw [op.level_strength] at hl
    rw [op.level_operand] at hr
    refine ⟨.binary l t r, ?_, ?_⟩
    · show Derives (level op.strength) _ _
      rw [op.level_strength]
      exact .binary hl (hkind ▸ op.kind_mem) hr
    · have hsplit :
          slashesOf (us ++ t :: vs) = slashesOf us ++ slashesOf [t] ++ slashesOf vs := by
        rw [← slashesOf_append, ← slashesOf_append, List.append_assoc, List.singleton_append]
      rw [hsplit]
      exact .operation hkind hleft hright
  | parentheses a ih =>
    intro ts hts
    obtain ⟨e, he, hrepresents⟩ := ih.grouping hts
    exact ⟨.grouping e, he, .parentheses hrepresents⟩

/-! ### Evaluation -/

theorem Operator.length_slashesOf (ht : t.kind = op.kind) :
    (slashesOf [t]).length = op.slashes := by
  unfold slashesOf
  rw [List.filter_singleton, ht]
  cases op <;> rfl

theorem Represents.length_eq (h : Represents a e ss) : ss.length = a.slashes := by
  induction h with
  | number => rfl
  | negation _ _ ih | parentheses _ ih | enclosed _ ih => exact ih
  | operation ht _ _ iha ihb =>
    simp [slashes, iha, ihb, Operator.length_slashesOf ht, Nat.add_assoc]

/-- The operation of two whole numbers gives the exact result, unless it is a division by zero. -/
theorem Operator.combine_cases (op : Operator) (x y : ℤ) :
    (∃ z, op.Gives x y z ∧ Value.combine op.kind (.integer x) (.integer y) = .value (.integer z) ∧
      ¬ (op = slash ∧ y = 0)) ∨
    op = slash ∧ y = 0 ∧ Value.combine op.kind (.integer x) (.integer y) = .divisionByZero := by
  cases op with
  | plus | minus | star => exact .inl ⟨_, rfl, rfl, by simp⟩
  | slash =>
    by_cases hy : y = 0
    · exact .inr ⟨rfl, hy, if_pos hy⟩
    · exact .inl ⟨_, isQuotient_tdiv x hy, if_neg hy, fun h ↦ hy h.2⟩

/-- How a computation can end that evaluates a tree: with its value, or at its first division by
zero. The slashes of the tree and of all the text around it are `all`, and `k` of them are to the
left of the tree. -/
inductive Evaluates (a : Arithmetic) (k : ℕ) (all : List Token) (x : Evaluation Value) : Prop
  | value {v : ℤ} (hv : a.Denotes v) (hzero : ∀ d ∈ a.divisions k, ¬ d.ByZero)
    (hrun : ∀ m, x.run m = .ok (.integer v) m)
  | division {d : Division} {t : Token} (hd : FirstByZero (a.divisions k) d)
    (ht : all[d.slash]? = some t)
    (hrun : ∀ m, x.run m = .error (.diagnostic (.divisionByZero t)) m)

section Operation

variable {k : ℕ} {all : List Token}

/-- Both operands are evaluated before the operator, and only a division can fail at it. -/
theorem Evaluates.operation (ht : t.kind = op.kind)
    (hslash : op = .slash → all[k + a.slashes]? = some t) (hl : Evaluates a k all l.evaluate)
    (hr : Evaluates b (k + a.slashes + op.slashes) all r.evaluate) :
    Evaluates (operation op a b) k all (Expr.binary l t r).evaluate := by
  cases hl with
  | division hd ht hrun =>
    refine .division (hd.append _) ht fun m ↦ ?_
    simp only [Expr.evaluate, EStateM.run_bind, hrun]
  | @value x hx hzeroa hrunl =>
    cases hr with
    | division hd ht hrun =>
      refine .division ((hd.append _).after hzeroa) ht fun m ↦ ?_
      simp only [Expr.evaluate, EStateM.run_bind, hrunl, hrun]
    | @value y hy hzerob hrunr =>
      have hrun (m : Machine) : (Expr.binary l t r).evaluate.run m =
          (Evaluation.combine t (.integer x) (.integer y)).run m := by
        simp only [Expr.evaluate, EStateM.run_bind, hrunl, hrunr]
      rcases op.combine_cases x y with ⟨z, hz, hcombine, hdivisor⟩ | ⟨rfl, rfl, hcombine⟩
      · refine .value (.operation hx hy hz) ?_ fun m ↦ ?_
        · refine List.forall_mem_append.mpr ⟨hzeroa, List.forall_mem_append.mpr ⟨hzerob, ?_⟩⟩
          intro d hd hzero
          split at hd
          · next hover =>
            obtain rfl := List.mem_singleton.mp hd
            exact hdivisor ⟨hover, hy.unique hzero⟩
          · cases hd
        · rw [hrun, Evaluation.combine, ht, hcombine]
          rfl
      · have hself : FirstByZero [⟨k + a.slashes, b⟩] ⟨k + a.slashes, b⟩ :=
          firstByZero_singleton hy
        refine .division ((hself.after hzerob).after hzeroa) (hslash rfl) fun m ↦ ?_
        rw [hrun, Evaluation.combine, ht, hcombine]
        rfl

theorem Evaluates.negation (ht : t.kind = .minus) (h : Evaluates a k all e.evaluate) :
    Evaluates (negation a) k all (Expr.unary t e).evaluate := by
  cases h with
  | value hv hzero hrun =>
    refine .value hv.negation hzero fun m ↦ ?_
    simp only [Expr.evaluate, EStateM.run_bind, hrun, ht]
    rfl
  | division hd ht hrun =>
    refine .division hd ht fun m ↦ ?_
    simp only [Expr.evaluate, EStateM.run_bind, hrun]

theorem Evaluates.parentheses (h : Evaluates a k all e.evaluate) :
    Evaluates (parentheses a) k all (Expr.grouping e).evaluate := by
  cases h with
  | value hv hzero hrun => exact .value hv.parentheses hzero hrun
  | division hd ht hrun => exact .division hd ht hrun

end Operation

/-- Whatever stands around a tree, it is evaluated to its value or fails at its first division by
zero. -/
theorem Represents.evaluates (h : Represents a e ss) (us vs : List Token) :
    Evaluates a us.length (us ++ ss ++ vs) e.evaluate := by
  induction h generalizing us vs with
  | number n => exact .value (.number n) (by simp [divisions]) fun _ ↦ rfl
  | negation ht _ ih => exact (ih us vs).negation ht
  | parentheses _ ih => exact (ih us vs).parentheses
  | enclosed _ ih => exact ih us vs
  | @operation op a b l r t ss ss' ht ha hb iha ihb =>
    have hleft := iha us (slashesOf [t] ++ ss' ++ vs)
    have hright := ihb (us ++ ss ++ slashesOf [t]) vs
    have hlength : (us ++ ss ++ slashesOf [t]).length = us.length + a.slashes + op.slashes := by
      simp [ha.length_eq, Operator.length_slashesOf ht, Nat.add_assoc]
    rw [hlength] at hright
    simp only [List.append_assoc] at hleft hright ⊢
    refine .operation ht (fun hop ↦ ?_) hleft hright
    have hself : slashesOf [t] = [t] := by simp [slashesOf, ht, hop, Operator.kind]
    rw [hself, ← List.append_assoc, ← ha.length_eq, ← List.length_append]
    simp

/-! ### Running -/

/-- The machine after a text with one statement was read. -/
def readOne (source : String) (m : Machine) : Machine :=
  { m with notices := .executing 1 :: .parsed 1 :: .scanning source.length :: m.notices }

/-- Printing a tree of arithmetic is exact. -/
structure PrintsExactly (a : Arithmetic) (source : String) (m : Machine) : Prop where
  /-- Without a division by zero there is one value, which is printed unless it is too long. -/
  value : (∀ d ∈ a.divisions 0, ¬ d.ByZero) → ∃ v, a.Denotes v ∧ (∀ w, a.Denotes w → w = v) ∧
    ((Nat.digits 10 v.natAbs).length ≤ digitLimit → (run source).run m =
      .ok () { readOne source m with printed := toString v :: m.printed }) ∧
    (digitLimit < (Nat.digits 10 v.natAbs).length → (run source).run m =
      .error (.mishap .integerTooLong) (readOne source m))
  /-- The first division by zero ends the run at its slash, and nothing is printed. -/
  division : (∃ d ∈ a.divisions 0, d.ByZero) → ∃ d tokens t, FirstByZero (a.divisions 0) d ∧
    tokenize source = .ok tokens ∧ (slashesOf tokens)[d.slash]? = some t ∧
    (run source).run m = .error (.diagnostic (.divisionByZero t)) (readOne source m)
  /-- The expression that is printed is never evaluated to anything but the whole number. -/
  whole : ∃ e, programOf source = .ok [.print e] ∧ ∀ n v n', e.evaluate.run n = .ok v n' →
    ∃ x, v = .integer x ∧ a.Denotes x ∧ n' = n

/-- The expression of a print statement, and the slashes of its text. -/
theorem exists_represents (a : Arithmetic) {ws : List String}
    (hlength : ws.length = a.lexemes.length) (hws : ∀ w ∈ ws, w = "" ∨ Separates w.toList) :
    ∃ tokens e, tokenize (a.printed ws) = .ok tokens ∧ parse tokens = .ok [.print e] ∧
      Represents a e (slashesOf tokens) := by
  obtain ⟨front, htokens, hgives⟩ := (a.reads_printed hlength hws).tokenize
  obtain ⟨word, rest, hword, hrest, rfl⟩ := List.forall₂_cons_left_iff.mp hgives
  obtain ⟨ts, last, rfl, hts, hlast⟩ := exists_append_of_forall₂ hrest
  obtain ⟨mark, rfl, hmark⟩ := exists_singleton_of_forall₂ hlast
  obtain ⟨e, he, hrepresents⟩ := a.readsAs_pieces ts hts
  have hprint : word.kind = .kwPrint := (Option.some.inj hword.kind).symm
  have hsemicolon : mark.kind = .semicolon := kind_of_gives_mark hmark rfl
  have hexpression := derives_expression (derives_level_of_le (Nat.zero_le _) he)
  have hprogram : Program (word :: (ts ++ [mark])) [.print e] := by
    have hone := Program.cons (.statement (.print hprint hexpression hsemicolon)) .nil
    simpa using hone
  refine ⟨_, e, htokens, parse_of_program hprogram rfl, ?_⟩
  have hfinal : (endToken (a.printed ws).toList).kind ≠ .slash := by simp [endToken]
  rwa [slashesOf_append, slashesOf_cons_of_ne (by simp [hprint]), slashesOf_append,
    slashesOf_cons_of_ne (by simp [hsemicolon]), slashesOf_cons_of_ne hfinal, slashesOf_nil,
    List.append_nil, List.append_nil]

theorem run_eq_of_parse {source : String} {tokens : List Token} {e : Expr}
    (htokens : tokenize source = .ok tokens) (hparse : parse tokens = .ok [.print e])
    (m : Machine) :
    (run source).run m = (Stmt.print e).execute.run (readOne source m) := by
  simp only [run, readProgram, htokens, hparse, Evaluation.failOn, bind_assoc, pure_bind,
    executeAll, bind_pure_unit]
  rfl

/-- A statement that prints a tree of arithmetic, with whatever gaps between its tokens, prints the
exact value of the tree, or it fails at the first division by zero. -/
theorem run_printed (a : Arithmetic) {ws : List String} (hlength : ws.length = a.lexemes.length)
    (hws : ∀ w ∈ ws, w = "" ∨ Separates w.toList) (m : Machine) :
    a.PrintsExactly (a.printed ws) m := by
  obtain ⟨tokens, e, htokens, hparse, hrepresents⟩ := a.exists_represents hlength hws
  have hprogram : programOf (a.printed ws) = .ok [.print e] := by
    simp only [programOf, htokens]
    exact hparse
  have hrun := run_eq_of_parse htokens hparse m
  have hend := hrepresents.evaluates [] []
  rw [List.nil_append, List.append_nil, List.length_nil] at hend
  cases hend with
  | @value v hv hzero heval =>
    have hprint : (run (a.printed ws)).run m = (do
        Evaluation.printLine (← Evaluation.failOnMishap (Value.integerText v))).run
          (readOne (a.printed ws) m) := by
      rw [hrun, Stmt.execute, EStateM.run_bind, heval]
      rfl
    refine ⟨fun _ ↦ ⟨v, hv, fun w hw ↦ hw.unique hv, fun hshort ↦ ?_, fun hlong ↦ ?_⟩, ?_,
      ⟨e, hprogram, ?_⟩⟩
    · have hshort : Value.isTooLong v = false := by
        rw [← Bool.not_eq_true, isTooLong_iff]
        exact Nat.not_lt.mpr hshort
      rw [hprint, Value.integerText_eq_ok hshort]
      rfl
    · rw [hprint, Value.integerText_eq_error_iff.mpr ⟨rfl, isTooLong_iff.mpr hlong⟩]
      rfl
    · rintro ⟨d, hd, hbyzero⟩
      exact absurd hbyzero (hzero d hd)
    · intro n value n' hn
      rw [heval] at hn
      cases hn
      exact ⟨v, rfl, hv, rfl⟩
  | @division d t hd ht heval =>
    refine ⟨fun hnone ↦ absurd hd.mem.2 (hnone d hd.mem.1), fun _ ↦ ?_, ⟨e, hprogram, ?_⟩⟩
    · refine ⟨d, tokens, t, hd, htokens, ht, ?_⟩
      rw [hrun, Stmt.execute, EStateM.run_bind, heval]
    · intro n value n' hn
      rw [heval] at hn
      cases hn

/-- A quotient that is cut off toward zero, with a zero in front of a number, a comment and a row of
signs. -/
theorem run_printed_of_quotient :
    ∃ (a : Arithmetic) (ws : List String), a.printed ws = "print ( 007- 10 //\n)/- -2;" ∧
      ws.length = a.lexemes.length ∧ (∀ w ∈ ws, w = "" ∨ Separates w.toList) ∧
      (run (a.printed ws)).run (.ofScopes default) =
        .ok () ⟨default, ["-1"], [.executing 1, .parsed 1, .scanning 26]⟩ := by
  let seven : Numeral := ⟨['0', '0', '7'], by simp, by simp [isDigit], by simp [digitLimit]⟩
  let ten : Numeral := ⟨['1', '0'], by simp, by simp [isDigit], by simp [digitLimit]⟩
  let two : Numeral := ⟨['2'], by simp, by simp [isDigit], by simp [digitLimit]⟩
  let a : Arithmetic := .operation .slash (.operation .minus (.number seven) (.number ten))
    (.negation (.negation (.number two)))
  let ws := [" ", "", " ", " //\n", "", "", " ", "", ""]
  have hspace : Separates [' '] := separates_of_mem_blanks (by decide)
  have hcomment : Separates [' ', '/', '/', '\n'] := by
    have hline : Gap ('/' :: '/' :: [] ++ '\n' :: []) := .lineComment (by decide) .nil
    exact ⟨.blank (by decide) hline, ' ', rfl, by decide⟩
  have hws : ∀ w ∈ ws, w = "" ∨ Separates w.toList := by
    simpa [ws] using ⟨hspace, hcomment, hspace⟩
  have htwo : (Arithmetic.number two).negation.negation.Denotes 2 :=
    .negation (.negation (.number two))
  have hvalue : a.Denotes (-1) := by
    refine .operation (.operation (.number seven) (.number ten) rfl) htwo ?_
    exact isQuotient_tdiv (-3) (y := 2) (by decide)
  have hdivisor : ∀ d ∈ a.divisions 0, ¬ d.ByZero := by
    intro d hd hzero
    obtain rfl : d = ⟨0, (Arithmetic.number two).negation.negation⟩ := by
      simpa [a, divisions, slashes, Operator.slashes] using hd
    exact absurd (hzero.unique htwo) (by decide)
  have htext : a.printed ws = "print ( 007- 10 //\n)/- -2;" := by
    decide +kernel
  have hcount : ws.length = a.lexemes.length := rfl
  have hexact := run_printed a hcount hws (.ofScopes default)
  obtain ⟨v, -, hunique, hprint, -⟩ := hexact.value hdivisor
  obtain rfl := hunique _ hvalue
  refine ⟨a, ws, htext, hcount, hws, ?_⟩
  have hlength : (a.printed ws).length = 26 := by
    rw [htext]
    decide
  have hdigits : toString (-1 : ℤ) = "-1" := by
    decide
  rw [hprint (by simp [digitLimit]), readOne, hlength, hdigits]
  rfl

end Arithmetic

end LoxLang
