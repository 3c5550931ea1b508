/-!
Blank characters, and text without the blanks at its ends.
-/

set_option autoImplicit false
set_option relaxedAutoImplicit false

namespace LoxLang.Text

/-- The white space of Unicode together with the four information separators. -/
def isBlank (c : Char) : Bool :=
  let n := c.toNat
  (0x09 ≤ n && n ≤ 0x0D) || (0x1C ≤ n && n ≤ 0x20) || n = 0x85 || n = 0xA0 || n = 0x1680 ||
    (0x2000 ≤ n && n ≤ 0x200A) || n = 0x2028 || n = 0x2029 || n = 0x202F || n = 0x205F ||
    n = 0x3000

/-- A list without the elements at its front and at its end that satisfy `p`. -/
def trim {α : Type} (p : α → Bool) (xs : List α) : List α :=
  ((xs.dropWhile p).reverse.dropWhile p).reverse

def strip (s : String) : String :=
  String.ofList (trim isBlank s.toList)

end LoxLang.Text
