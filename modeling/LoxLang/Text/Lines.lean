/-!
Line breaks of text files, and the lines of a text.
-/

set_option autoImplicit false
set_option relaxedAutoImplicit false

namespace LoxLang.Text

/-- Every carriage return becomes a newline, also one with a newline after it. -/
def unifyBreaks : List Char → List Char
  | [] => []
  | '\r' :: '\n' :: cs => '\n' :: unifyBreaks cs
  | c :: cs => (if c = '\r' then '\n' else c) :: unifyBreaks cs

/-- The characters that end a line: vertical movements, the information separators above the unit
separator, and the separators of lines and paragraphs. -/
def isLineBreak (c : Char) : Bool :=
  let n := c.toNat
  (0x0A ≤ n && n ≤ 0x0D) || (0x1C ≤ n && n ≤ 0x1E) || n = 0x85 || n = 0x2028 || n = 0x2029

/-- The lines of a text that goes on a line begun with `begun`, which is in reverse. -/
def linesFrom (begun : List Char) : List Char → List (List Char)
  | [] => if begun.isEmpty then [] else [begun.reverse]
  | '\r' :: '\n' :: cs => begun.reverse :: linesFrom [] cs
  | c :: cs => if isLineBreak c then begun.reverse :: linesFrom [] cs else linesFrom (c :: begun) cs

/-- A text ends with its last line break or with a last line that has none. -/
def lines (s : String) : List String :=
  (linesFrom [] s.toList).map String.ofList

end LoxLang.Text
