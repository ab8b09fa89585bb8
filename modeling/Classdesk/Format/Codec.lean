import Classdesk.Bytes

/-!
# Reading and writing stored values

A `Codec` reads a value off the front of a byte string and returns what is left,
and writes a value as a byte string. Numbers are big-endian; a table is a 16-bit
count followed by its entries; a block is a 32-bit length followed by its bytes.

Reading a number past the end is `endOfInput`. A block that is cut short reports
how much of it was there.
-/

namespace Classdesk

/-- What can go wrong while moving values between memory and bytes. -/
inductive StreamFault
  /-- The input ended inside a number. -/
  | endOfInput
  /-- The input ended inside a block of known length. -/
  | shortBlock (expected found : Nat)
  /-- A table has more entries than its 16-bit count can say. -/
  | tableTooLong
  /-- A text constant takes more than 65535 bytes. -/
  | textTooLong
  deriving DecidableEq, Repr

namespace StreamFault

/-- The wording of a fault. -/
def message : StreamFault → String
  | endOfInput => "failed to fill whole buffer"
  | shortBlock expected found => s!"expected {expected} bytes, found only {found}"
  | tableTooLong => "sequence is too long for a u16 length prefix"
  | textTooLong => "string constant is longer than 65535 bytes"

/-- Whether the input was too short, as opposed to the output too long. -/
def isTruncation : StreamFault → Bool
  | endOfInput | shortBlock .. => true
  | tableTooLong | textTooLong => false

end StreamFault

/-- Reading an `α` off the front of some bytes, which may fail. -/
abbrev Reader (ε α : Type) := StateT Bytes (Except ε) α

/-- The same reader with its faults reported in other terms. -/
def Reader.mapFault {ε ε' α : Type} (f : ε → ε') (r : Reader ε α) : Reader ε' α :=
  fun bs => (r bs).mapError f

/-- How values of a type are stored. -/
class Codec (α : Type) where
  /-- Read a value off the front of the bytes. -/
  read : Reader StreamFault α
  /-- The bytes a value is stored as. -/
  write : α → Except StreamFault Bytes

namespace Codec

/-! ## Numbers -/

/-- Read a `w`-byte number. -/
def readWord (w : Nat) : Reader StreamFault Nat := fun bs =>
  let word := bs.take w
  if word.length = w then .ok (Bytes.toNat word, bs.drop w) else .error .endOfInput

/-- A codec for a type that is stored as a `w`-byte number. -/
@[reducible]
def ofWord {α : Type} (w : Nat) (ofNat : Nat → α) (toNat : α → Nat) : Codec α where
  read := ofNat <$> readWord w
  write a := .ok (Bytes.ofNat w (toNat a))

instance : Codec UInt8 := ofWord 1 UInt8.ofNat UInt8.toNat
instance : Codec UInt16 := ofWord 2 UInt16.ofNat UInt16.toNat
instance : Codec UInt32 := ofWord 4 UInt32.ofNat UInt32.toNat
instance : Codec UInt64 := ofWord 8 UInt64.ofNat UInt64.toNat
instance : Codec Int8 := ofWord 1 Int8.ofNat fun x => x.toUInt8.toNat
instance : Codec Int16 := ofWord 2 Int16.ofNat fun x => x.toUInt16.toNat
instance : Codec Int32 := ofWord 4 Int32.ofNat fun x => x.toUInt32.toNat
instance : Codec Int64 := ofWord 8 Int64.ofNat fun x => x.toUInt64.toNat

/-! ## Blocks -/

/-- Read exactly `n` bytes. -/
def readBlock (n : Nat) : Reader StreamFault Bytes := fun bs =>
  let block := bs.take n
  if block.length = n then .ok (block, bs.drop n)
  else .error (.shortBlock n block.length)

/-- Read a block behind its 32-bit length. -/
def readSizedBlock : Reader StreamFault Bytes := do
  let n : UInt32 ← read
  readBlock n.toNat

/-- A block behind its 32-bit length. -/
def writeSizedBlock (block : Bytes) : Bytes :=
  Bytes.ofNat 4 block.length ++ block

/-! ## Tables -/

/-- Read `n` values in a row. -/
def readEntries {α : Type} [Codec α] : Nat → Reader StreamFault (List α)
  | 0 => pure []
  | n + 1 => do
    let a ← read
    let as ← readEntries n
    pure (a :: as)

/-- The stored forms of some values, one after the other. -/
def writeEntries {α : Type} (form : α → Except StreamFault Bytes) :
    List α → Except StreamFault Bytes
  | [] => .ok []
  | a :: as => do
    let first ← form a
    let others ← writeEntries form as
    pure (first ++ others)

/-- A table: a 16-bit count, then that many entries. -/
instance instTable {α : Type} [Codec α] : Codec (List α) where
  read := do
    let n : UInt16 ← read
    readEntries n.toNat
  write as :=
    if as.length < 65536 then do
      let entries ← writeEntries write as
      pure (Bytes.ofNat 2 as.length ++ entries)
    else .error .tableTooLong

end Codec

end Classdesk
