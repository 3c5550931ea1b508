import LoxLang.Token

/-!
The operators of the language on values.

An operator on operands that do not suit it gives nil. The one operation that fails is the division
of a whole number by zero.
-/

set_option autoImplicit false
set_option relaxedAutoImplicit false

namespace LoxLang

namespace Value

/-- The negation of a floating-point number or of nil is false, as if either were true. -/
def unary (operator : Token.Kind) (right : Value) : Value :=
  match operator, right with
  | .bang, .bool _ => .bool !right.isTruthy
  | .bang, .integer _ => .bool !right.isTruthy
  | .bang, .string _ => .bool !right.isTruthy
  | .bang, _ => .bool false
  | .minus, .integer n => .integer (-n)
  | .minus, .float x => .float (-x)
  | _, _ => .nil

/-- What comes of two operands: a value, nil for want of suitable operands, or no value at all. -/
inductive Combination
  | value (v : Value)
  | mismatch
  | divisionByZero
  deriving DecidableEq, Repr

/-- Quotients are cut off toward zero. -/
def combineIntegers (operator : Token.Kind) (m n : Int) : Combination :=
  match operator with
  | .plus => .value (.integer (m + n))
  | .minus => .value (.integer (m - n))
  | .star => .value (.integer (m * n))
  | .slash => if n = 0 then .divisionByZero else .value (.integer (m.tdiv n))
  | .greater => .value (.bool (n < m))
  | .greaterEqual => .value (.bool (n ≤ m))
  | .less => .value (.bool (m < n))
  | .lessEqual => .value (.bool (m ≤ n))
  | _ => .value .nil

/-- Floating-point division by zero gives an infinity, or no number for zero by zero. -/
def combineFloats (operator : Token.Kind) (x y : Float) : Value :=
  match operator with
  | .plus => .float (x + y)
  | .minus => .float (x - y)
  | .star => .float (x * y)
  | .slash => .float (x / y)
  | .greater => .bool (y < x)
  | .greaterEqual => .bool (y ≤ x)
  | .less => .bool (x < y)
  | .lessEqual => .bool (x ≤ y)
  | _ => .nil

def combine (operator : Token.Kind) (left right : Value) : Combination :=
  match operator with
  | .equalEqual => .value (.bool (left.equals right))
  | .bangEqual => .value (.bool !left.equals right)
  | _ =>
    match operator, left, right with
    | .plus, .string s, .string t => .value (.string (s ++ t))
    | _, .integer m, .integer n => combineIntegers operator m n
    | _, .float x, .float y => .value (combineFloats operator x y)
    | _, _, _ => .mismatch

theorem combine_eq_divisionByZero_iff {operator : Token.Kind} {left right : Value} :
    combine operator left right = .divisionByZero ↔
      operator = .slash ∧ (∃ m, left = .integer m) ∧ right = .integer 0 := by
  constructor
  · intro h
    simp only [combine] at h
    split at h <;> try simp at h
    split at h <;> try simp at h
    simp only [combineIntegers] at h
    split at h <;> simp_all
  · rintro ⟨rfl, ⟨m, rfl⟩, rfl⟩
    rfl

theorem combineIntegers_ne_mismatch (operator : Token.Kind) (m n : Int) :
    combineIntegers operator m n ≠ .mismatch := by
  unfold combineIntegers
  split
  case h_4 => split <;> exact Combination.noConfusion
  all_goals exact Combination.noConfusion

/-- Operands do not suit an operator other than an equality if they are not numbers of one variant,
nor texts that are joined. -/
theorem combine_eq_mismatch_iff {operator : Token.Kind} {left right : Value} :
    combine operator left right = .mismatch ↔
      operator ≠ .equalEqual ∧ operator ≠ .bangEqual ∧ left.sameNumeric right = false ∧
        ∀ s t, (operator, left, right) ≠ (.plus, .string s, .string t) := by
  unfold combine
  split
  · simp
  · simp
  next hequal hunequal =>
    split
    · simp
    · simp [combineIntegers_ne_mismatch, sameNumeric]
    · simp [sameNumeric]
    next hintegers hfloats hjoined =>
      refine iff_of_true rfl ⟨hequal, hunequal, ?_, ?_⟩
      · unfold sameNumeric
        split
        · exact (hintegers _ _ rfl rfl).elim
        · exact (hfloats _ _ rfl rfl).elim
        · rfl
      · intro s t h
        cases h
        exact hjoined _ _ rfl rfl rfl

end Value

end LoxLang
