import Classdesk.Bytes

/-!
# Bytes as hexadecimal text

Two lowercase digits for each byte. Reading also takes capital digits.
-/

namespace Classdesk.Text.Hex

/-- The digit of a number below sixteen. -/
def digit (n : Nat) : Char :=
  if n < 10 then Char.ofNat (48 + n) else Char.ofNat (87 + n)

/-- The value of a digit. -/
def value? (c : Char) : Option Nat :=
  if '0' ≤ c && c ≤ '9' then some (c.toNat - 48)
  else if 'a' ≤ c && c ≤ 'f' then some (c.toNat - 87)
  else if 'A' ≤ c && c ≤ 'F' then some (c.toNat - 55)
  else none

/-- The digits of some bytes. -/
def encode (bs : Bytes) : String :=
  String.ofList (bs.flatMap fun b => [digit (b.toNat / 16), digit (b.toNat % 16)])

/-- The bytes of some digits. -/
def decodeChars? : List Char → Option Bytes
  | [] => some []
  | [_] => none
  | a :: b :: cs => do
    let high ← value? a
    let low ← value? b
    let bytes ← decodeChars? cs
    some (UInt8.ofNat (high * 16 + low) :: bytes)

/-- The bytes that a text of digits stands for. -/
def decode? (text : String) : Option Bytes := decodeChars? text.toList

end Classdesk.Text.Hex
