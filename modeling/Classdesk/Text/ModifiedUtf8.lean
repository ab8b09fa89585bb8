import Classdesk.Bytes
import Classdesk.Text.Utf16

/-!
# Modified UTF-8

The text encoding of class files. It differs from UTF-8 in two ways: zero is written in
two bytes, so that no byte is zero, and a character outside the basic plane is written as
the two halves of its surrogate pair, three bytes each. So there are groups of

* one byte, `01`–`7F`,
* two bytes, `C0`–`DF` and a continuation, for 11 bits,
* three bytes, `E0`–`EF` and two continuations, for 16 bits.

A continuation is a byte `80`–`BF`. Decoding reads one UTF-16 unit from each group, and
accepts longer groups than needed.
-/

namespace Classdesk.Text.ModifiedUtf8

/-- The bytes of a character. -/
def encodeChar (c : Char) : Bytes :=
  let code := c.val
  match if c = '\x00' then 2 else c.utf8Size with
  | 1 => [code.toUInt8]
  | 2 => [(code >>> 6 &&& 0x1F).toUInt8 ||| 0xC0, (code &&& 0x3F).toUInt8 ||| 0x80]
  | 3 =>
    [(code >>> 12 &&& 0x0F).toUInt8 ||| 0xE0, (code >>> 6 &&& 0x3F).toUInt8 ||| 0x80,
      (code &&& 0x3F).toUInt8 ||| 0x80]
  | _ =>
    -- The plane counts from one and its half of the pair from zero; plane 16 wraps around.
    [0xED, ((code >>> 16 &&& 0x0F).toUInt8 - 1) &&& 0x0F ||| 0xA0,
      (code >>> 10 &&& 0x3F).toUInt8 ||| 0x80,
      0xED, (code >>> 6 &&& 0x0F).toUInt8 ||| 0xB0, (code &&& 0x3F).toUInt8 ||| 0x80]

/-- The modified UTF-8 form of a text. -/
def encode (cs : List Char) : Bytes := cs.flatMap encodeChar

/-- The six bits of a continuation byte. -/
def continuation (b : UInt8) : Option UInt16 :=
  if b &&& 0xC0 = 0x80 then some (b &&& 0x3F).toUInt16 else none

/-- The units of a byte string, or `none` if it is not made of groups. -/
def decodeUnits : Bytes → Option (List UInt16)
  | [] => some []
  | a :: rest =>
    if 0x01 ≤ a && a ≤ 0x7F then do
      let units ← decodeUnits rest
      some (a.toUInt16 :: units)
    else if 0xC0 ≤ a && a ≤ 0xDF then
      match rest with
      | b :: rest => do
        let low ← continuation b
        let units ← decodeUnits rest
        some (((a.toUInt16 &&& 0x1F) <<< 6 ||| low) :: units)
      | [] => none
    else if 0xE0 ≤ a && a ≤ 0xEF then
      match rest with
      | b :: c :: rest => do
        let mid ← continuation b
        let low ← continuation c
        let units ← decodeUnits rest
        some (((a.toUInt16 &&& 0x0F) <<< 12 ||| mid <<< 6 ||| low) :: units)
      | _ => none
    else none

/-- The text of a byte string, or `none` if it is not made of groups. -/
def decode (bs : Bytes) : Option (List Char) :=
  (decodeUnits bs).map fun units => ofUtf16 (units.map UInt16.toNat)

end Classdesk.Text.ModifiedUtf8
