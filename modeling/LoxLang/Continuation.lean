import LoxLang.Text.Blank

/-!
Joining the lines of a statement that is typed over several lines.
-/

set_option autoImplicit false
set_option relaxedAutoImplicit false

namespace LoxLang

/-- The parentheses that a line leaves open, less those that it closes too many, on top of `depth`.
Those in strings do not count, nor does what follows two slashes. -/
def openDepth (depth : Int) (inString : Bool) : List Char → Int
  | [] => depth
  | c :: cs =>
    if c = '"' then openDepth depth (!inString) cs
    else if inString then openDepth depth inString cs
    else if c = '/' && cs.head? = some '/' then depth
    else if c = '(' then openDepth (depth + 1) inString cs
    else if c = ')' then openDepth (depth - 1) inString cs
    else openDepth depth inString cs

def isUnfinished (line : String) : Bool :=
  0 < openDepth 0 false line.toList

/-- A line after the unfinished lines before it, and whether the whole is still unfinished. -/
def joinLine (pending line : String) : String × Bool :=
  let joined := Text.strip (if pending = "" then line else pending ++ " " ++ line)
  (joined, isUnfinished joined)

end LoxLang
