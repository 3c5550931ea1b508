/-!
Digits, letters and the underscore of the language, all of them ASCII.
-/

set_option autoImplicit false
set_option relaxedAutoImplicit false

namespace LoxLang.Source

/-- Whether a text lies between two one-letter texts in the order of dictionaries. For a text of one
character this asks whether the character lies between the two letters. -/
def isBetween (low high : Char) : List Char → Bool
  | [] => false
  | c :: cs => low ≤ c && (c < high || c = high && cs.isEmpty)

def isDigitText (text : List Char) : Bool :=
  isBetween '0' '9' text

def isAlphaText (text : List Char) : Bool :=
  isBetween 'a' 'z' text || isBetween 'A' 'Z' text || text == ['_']

def isAlphaNumericText (text : List Char) : Bool :=
  isAlphaText text || isDigitText text

def isDigit (c : Char) : Bool :=
  '0' ≤ c && c ≤ '9'

def isAlpha (c : Char) : Bool :=
  ('a' ≤ c && c ≤ 'z') || ('A' ≤ c && c ≤ 'Z') || c == '_'

def isAlphaNumeric (c : Char) : Bool :=
  isAlpha c || isDigit c

theorem isBetween_singleton (low high c : Char) :
    isBetween low high [c] = (decide (low ≤ c) && decide (c ≤ high)) := by
  have h : c ≤ high ↔ c < high ∨ c = high := by
    rw [Char.le_def, Char.lt_def, ← Char.val_inj, UInt32.le_iff_lt_or_eq]
  simp [isBetween, h]

theorem isDigitText_singleton (c : Char) : isDigitText [c] = isDigit c :=
  isBetween_singleton '0' '9' c

theorem isAlphaText_singleton (c : Char) : isAlphaText [c] = isAlpha c := by
  simp only [isAlphaText, isBetween_singleton, isAlpha]
  congr 1
  by_cases h : c = '_' <;> simp [h]

theorem isAlphaNumericText_singleton (c : Char) :
    isAlphaNumericText [c] = isAlphaNumeric c := by
  rw [isAlphaNumericText, isAlphaText_singleton, isDigitText_singleton, isAlphaNumeric]

end LoxLang.Source
