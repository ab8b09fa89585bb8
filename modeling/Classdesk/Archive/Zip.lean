import Classdesk.Archive.Crc32
import Classdesk.Archive.Inflate
import Classdesk.Format.Codec
import Classdesk.Text.CodePage437
import Classdesk.Text.Utf8

/-!
# Zip archives

An archive ends with a record that says where its directory lies. The directory has a
header for each entry, which points to the entry's data. Other data may stand in front
of the archive: all positions are then too small by the same amount. When a name
occurs several times, its last header counts.

Numbers are little-endian.
-/

namespace Classdesk

namespace Archive

/-- Why an archive or one of its entries could not be opened. -/
inductive ArchiveFault
  | tooShort
  | noEndRecord
  | severalDisks
  | badDirectoryPlace
  | badHeader
  | badLocalHeader
  | encrypted
  | unknownMethod
  | noSuchEntry
  /-- A record breaks off. -/
  | cutShort
  deriving DecidableEq, Repr

/-- The wording of a fault. -/
def ArchiveFault.message : ArchiveFault → String
  | tooShort => "invalid Zip archive: Invalid zip header"
  | noEndRecord => "invalid Zip archive: Could not find central directory end"
  | severalDisks => "unsupported Zip archive: Support for multi-disk files is not implemented"
  | badDirectoryPlace => "invalid Zip archive: Invalid central directory size or offset"
  | badHeader => "invalid Zip archive: Invalid Central Directory header"
  | badLocalHeader => "invalid Zip archive: Invalid local file header"
  | encrypted => "unsupported Zip archive: Password required to decrypt file"
  | unknownMethod => "unsupported Zip archive: Compression method not supported"
  | noSuchEntry => "specified file not found in archive"
  | cutShort => StreamFault.endOfInput.message

/-- Why the data of an entry could not be read. -/
inductive DataFault
  | wrongCheck
  | corrupt
  deriving DecidableEq, Repr

/-- The wording of a fault. -/
def DataFault.message : DataFault → String
  | wrongCheck => "Invalid checksum"
  | corrupt => "corrupt deflate stream"

/-- Reading the records of an archive. -/
abbrev RecordReader (α : Type) := Reader ArchiveFault α

/-- The next bytes of a record. -/
def block (count : Nat) : RecordReader Bytes := fun bs =>
  let taken := bs.take count
  if taken.length < count then .error .cutShort else .ok (taken, bs.drop count)

/-- The next number of a record, `width` bytes long. -/
def word (width : Nat) : RecordReader Nat := do
  pure (Bytes.toNat (← block width).reverse)

/-! ## The end record -/

/-- The bytes that the end record starts with. -/
def endMark : Bytes := [0x50, 0x4B, 0x05, 0x06]

/-- The length of an end record without its comment. -/
def endLength : Nat := 22

/-- What the end record says. -/
structure EndRecord where
  disk : Nat
  directoryDisk : Nat
  countOnDisk : Nat
  count : Nat
  directorySize : Nat
  directoryOffset : Nat

namespace EndRecord

/-- Read an end record with its comment. -/
def read : RecordReader EndRecord := do
  let _ ← block 4
  let disk ← word 2
  let directoryDisk ← word 2
  let countOnDisk ← word 2
  let count ← word 2
  let directorySize ← word 4
  let directoryOffset ← word 4
  let _ ← block (← word 2)
  pure { disk, directoryDisk, countOnDisk, count, directorySize, directoryOffset }

/-- Whether a number is too large for the record. -/
def overflows (r : EndRecord) : Bool :=
  [r.disk, r.directoryDisk, r.countOnDisk, r.count].contains 0xFFFF ||
    [r.directorySize, r.directoryOffset].contains 0xFFFFFFFF

/-- The last place, counted from `position`, where an end record may start. -/
def last? : (position : Nat) → Bytes → Option (Nat × Bytes)
  | _, [] => none
  | position, b :: bs =>
    match last? (position + 1) bs with
    | some found => some found
    | none =>
      let here := b :: bs
      if endMark.isPrefixOf here && endLength ≤ here.length then some (position, here) else none

/-- The end record of an archive and its position. Its comment is at most 65535 bytes
long, so it is not looked for further in front. -/
def find (bs : Bytes) : Except ArchiveFault (Nat × EndRecord) := do
  if bs.length < endLength then throw .tooShort
  let skipped := bs.length - (endLength + 65535)
  match last? skipped (bs.drop skipped) with
  | none => .error .noEndRecord
  | some (position, rest) => do pure (position, (← read rest).1)

end EndRecord

/-! ## The directory -/

/-- What the directory says about an entry. -/
structure Entry where
  name : String
  isEncrypted : Bool
  method : Nat
  check : Nat
  storedSize : Nat
  /-- Where the entry starts in the file. -/
  position : Nat
  deriving DecidableEq, Repr

namespace Entry

/-- Read a header of the directory of an archive that starts at some position. -/
def read (start : Nat) : RecordReader Entry := do
  if (← block 4) ≠ [0x50, 0x4B, 0x01, 0x02] then throw .badHeader
  let _ ← block 4
  let flags ← word 2
  let method ← word 2
  let _ ← block 4
  let check ← word 4
  let storedSize ← word 4
  let _ ← block 4
  let nameLength ← word 2
  let extraLength ← word 2
  let commentLength ← word 2
  let _ ← block 8
  let offset ← word 4
  let name ← block nameLength
  let _ ← block extraLength
  let _ ← block commentLength
  pure {
    name := if flags.testBit 11 then Text.Utf8.decodeLossy name else Text.CodePage437.decode name
    isEncrypted := flags.testBit 0
    method, check, storedSize
    position := start + offset }

end Entry

end Archive

/-- An archive: its bytes and the headers of its directory. -/
structure Archive where
  bytes : Bytes
  entries : List Archive.Entry

namespace Archive

/-- Read a number of headers. -/
def headers (start : Nat) : (count : Nat) → RecordReader (List Entry)
  | 0 => pure []
  | count + 1 => do
    let entry ← Entry.read start
    pure (entry :: (← headers start count))

/-- Open an archive. -/
def read (bs : Bytes) : Except ArchiveFault Archive := do
  let (position, record) ← EndRecord.find bs
  if !record.overflows && record.disk ≠ record.directoryDisk then throw .severalDisks
  if position < record.directorySize + record.directoryOffset then throw .badDirectoryPlace
  let directory := position - record.directorySize
  let start := directory - record.directoryOffset
  let (entries, _) ← headers start record.countOnDisk (bs.drop directory)
  pure ⟨bs, entries⟩

/-- The names of an archive, each once. -/
def names (a : Archive) : List String := (a.entries.map Entry.name).eraseDups

/-- The last entry with a name. -/
def entry? (a : Archive) (name : String) : Option Entry :=
  a.entries.reverse.find? (·.name == name)

/-- The stored data of an entry; what is missing at the end of the file is left out. -/
def stored (a : Archive) (e : Entry) : Except ArchiveFault Bytes := do
  let header : RecordReader Nat := do
    if (← block 4) ≠ [0x50, 0x4B, 0x03, 0x04] then throw .badLocalHeader
    let _ ← block 22
    let nameLength ← word 2
    let extraLength ← word 2
    pure (nameLength + extraLength)
  let (skipped, rest) ← header (a.bytes.drop e.position)
  pure ((rest.drop skipped).take e.storedSize)

/-- Open an entry: its data, which may still turn out to be damaged. -/
def openEntry (a : Archive) (name : String) :
    Except ArchiveFault (Except DataFault Bytes) := do
  match a.entry? name with
  | none => .error .noSuchEntry
  | some e =>
    if e.isEncrypted then throw .encrypted
    let data ← a.stored e
    let checked (bs : Bytes) : Except DataFault Bytes :=
      if (Crc32.ofBytes bs).toNat = e.check then .ok bs else .error .wrongCheck
    match e.method with
    | 0 => pure (checked data)
    | 8 =>
      match inflate? data with
      | some bs => pure (checked bs)
      | none => pure (.error .corrupt)
    | _ => throw .unknownMethod

end Archive

end Classdesk
