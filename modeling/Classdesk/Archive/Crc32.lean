import Classdesk.Bytes

/-!
# Cyclic redundancy check

The 32-bit check of zip archives: the remainder of the bytes, lowest bit first,
divided by a fixed polynomial over bits. `step` takes one byte; the register starts
and ends with all bits flipped.
-/

namespace Classdesk.Archive.Crc32

/-- The divisor, with its lowest power at the highest bit. -/
def divisor : UInt32 := 0xEDB88320

/-- Shift one bit out of the register. -/
def shift (register : UInt32) : UInt32 :=
  if register &&& 1 = 1 then (register >>> 1) ^^^ divisor else register >>> 1

/-- Take one byte into the register. -/
def step (register : UInt32) (b : UInt8) : UInt32 :=
  (List.range 8).foldl (fun r _ => shift r) (register ^^^ b.toUInt32)

/-- The check of some bytes. -/
def ofBytes (bs : Bytes) : UInt32 := bs.foldl step 0xFFFFFFFF ^^^ 0xFFFFFFFF

end Classdesk.Archive.Crc32
