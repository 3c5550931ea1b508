import LoxLang.Text.Visible

/-!
Text between quotation marks, with backslash escapes for the mark, the backslash and every
character without a visible form.
-/

set_option autoImplicit false
set_option relaxedAutoImplicit false

namespace LoxLang.Text

def singleMark : Char := '\x27'

def doubleMark : Char := '\x22'

/-- The single mark, unless it occurs in the text and the double one does not. -/
def markFor (cs : List Char) : Char :=
  if cs.contains singleMark && !cs.contains doubleMark then doubleMark else singleMark

/-- The code point in `width` hexadecimal digits at least. -/
def hexadecimal (width : Nat) (c : Char) : List Char :=
  let ds := Nat.toDigits 16 c.toNat
  List.replicate (width - ds.length) '0' ++ ds

def escape (mark c : Char) : List Char :=
  if c = mark || c = '\\' then ['\\', c]
  else if c = '\n' then ['\\', 'n']
  else if c = '\r' then ['\\', 'r']
  else if c = '\t' then ['\\', 't']
  else if isVisible c then [c]
  else if c.toNat ≤ 0xFF then '\\' :: 'x' :: hexadecimal 2 c
  else if c.toNat ≤ 0xFFFF then '\\' :: 'u' :: hexadecimal 4 c
  else '\\' :: 'U' :: hexadecimal 8 c

def quoted (s : String) : String :=
  let mark := markFor s.toList
  String.ofList (mark :: s.toList.flatMap (escape mark) ++ [mark])

end LoxLang.Text
