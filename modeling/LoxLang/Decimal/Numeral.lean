import LoxLang.Text.Blank
import LoxLang.Text.DecimalDigit

/-!
Reading whole numbers and decimal fractions from text.

A numeral may have blanks around it, a sign in front, digits of any script, and single underscores
between digits.
-/

set_option autoImplicit false
set_option relaxedAutoImplicit false

namespace LoxLang.Decimal

/-- The digits of a number that is read or written as a whole number are at most this many. -/
def digitLimit : Nat := 4300

/-- The values of a run of digits, in which single underscores may stand between two digits. -/
def digitRun? : List Char → Option (List Nat)
  | [] => none
  | [c] => (Text.digitValue? c).map ([·])
  | c :: '_' :: cs => do
    let d ← Text.digitValue? c
    (← digitRun? cs).cons d
  | c :: cs => do
    let d ← Text.digitValue? c
    (← digitRun? cs).cons d

/-- Reads digits from the left onto `n`. -/
def appendDigits (n : Nat) (ds : List Nat) : Nat :=
  ds.foldl (fun n d => 10 * n + d) n

/-- The information separators are no blanks around a numeral. -/
def isPadding (c : Char) : Bool :=
  Text.isBlank c && !(0x1C ≤ c.toNat && c.toNat ≤ 0x1F)

/-- Whether a numeral is negative, and the numeral without its blanks and its sign. -/
def splitSign (text : List Char) : Bool × List Char :=
  match Text.trim isPadding text with
  | '-' :: cs => (true, cs)
  | '+' :: cs => (false, cs)
  | cs => (false, cs)

def readInteger? (text : List Char) : Option Int := do
  let (negative, cs) := splitSign text
  let ds ← digitRun? cs
  if digitLimit < ds.length then none
  else
    let n := appendDigits 0 ds
    some (if negative then -n else n)

/-- Reads a numeral with a point, before which there may be no digit. -/
def readFraction? (text : List Char) : Option Float := do
  let (negative, cs) := splitSign text
  let whole := cs.takeWhile (· != '.')
  let before ← if whole.isEmpty then some [] else digitRun? whole
  let after ← digitRun? ((cs.dropWhile (· != '.')).drop 1)
  let x := Float.ofScientific (appendDigits 0 (before ++ after)) true after.length
  some (if negative then -x else x)

end LoxLang.Decimal
