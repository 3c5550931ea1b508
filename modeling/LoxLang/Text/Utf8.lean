/-!
Text from bytes, by the UTF-8 encoding.
-/

set_option autoImplicit false
set_option relaxedAutoImplicit false

namespace LoxLang.Text.Utf8

inductive Reason
  | invalidStart
  | invalidContinuation
  | endOfData
  deriving DecidableEq, Repr

/-- The first bytes that encode no character: `length` of them from `position` on, the first of
which is `byte`. -/
structure Fault where
  byte : Nat
  position : Nat
  length : Nat
  reason : Reason
  deriving DecidableEq, Repr

/-- A character of which some bytes are still missing; the next one lies between `lower` and
`upper`. -/
structure Unfinished where
  first : Nat
  length : Nat
  missing : Nat
  lower : Nat
  upper : Nat
  code : Nat

/-- The first byte of a character of several bytes. Its successor has a narrower range where the
character would have a shorter encoding, be a surrogate or lie beyond the last code point. -/
def Unfinished.start? (byte : Nat) : Option Unfinished :=
  if 0xC2 ≤ byte && byte ≤ 0xDF then some ⟨byte, 1, 1, 0x80, 0xBF, byte - 0xC0⟩
  else if byte = 0xE0 then some ⟨byte, 1, 2, 0xA0, 0xBF, 0⟩
  else if byte = 0xED then some ⟨byte, 1, 2, 0x80, 0x9F, 0xD⟩
  else if 0xE1 ≤ byte && byte ≤ 0xEF then some ⟨byte, 1, 2, 0x80, 0xBF, byte - 0xE0⟩
  else if byte = 0xF0 then some ⟨byte, 1, 3, 0x90, 0xBF, 0⟩
  else if 0xF1 ≤ byte && byte ≤ 0xF3 then some ⟨byte, 1, 3, 0x80, 0xBF, byte - 0xF0⟩
  else if byte = 0xF4 then some ⟨byte, 1, 3, 0x80, 0x8F, 4⟩
  else none

def Unfinished.fault (u : Unfinished) (position : Nat) (reason : Reason) : Fault :=
  ⟨u.first, position - u.length, u.length, reason⟩

/-- The characters read so far, last first, after `position` bytes. -/
structure Decoder where
  position : Nat := 0
  chars : List Char := []
  unfinished : Option Unfinished := none

def Decoder.feed (d : Decoder) (byte : UInt8) : Except Fault Decoder :=
  let b := byte.toNat
  match d.unfinished with
  | none =>
    if b < 0x80 then .ok ⟨d.position + 1, Char.ofNat b :: d.chars, none⟩
    else
      match Unfinished.start? b with
      | some u => .ok ⟨d.position + 1, d.chars, some u⟩
      | none => .error ⟨b, d.position, 1, .invalidStart⟩
  | some u =>
    let code := u.code * 0x40 + (b - 0x80)
    if b < u.lower || u.upper < b then .error (u.fault d.position .invalidContinuation)
    else if u.missing = 1 then .ok ⟨d.position + 1, Char.ofNat code :: d.chars, none⟩
    else .ok ⟨d.position + 1, d.chars, some ⟨u.first, u.length + 1, u.missing - 1, 0x80, 0xBF, code⟩⟩

def decode (bytes : List UInt8) : Except Fault (List Char) := do
  let d ← bytes.foldlM Decoder.feed {}
  match d.unfinished with
  | none => .ok d.chars.reverse
  | some u => .error (u.fault d.position .endOfData)

def Reason.text : Reason → String
  | invalidStart => "invalid start byte"
  | invalidContinuation => "invalid continuation byte"
  | endOfData => "unexpected end of data"

def Fault.text (f : Fault) : String :=
  let digits := Nat.toDigits 16 f.byte
  let place :=
    if f.length = 1 then
      "byte 0x" ++ String.ofList (List.replicate (2 - digits.length) '0' ++ digits) ++
        " in position " ++ toString f.position
    else
      "bytes in position " ++ toString f.position ++ "-" ++ toString (f.position + f.length - 1)
  "'utf-8' codec can't decode " ++ place ++ ": " ++ f.reason.text

end LoxLang.Text.Utf8
