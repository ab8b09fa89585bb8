import Classdesk.Bytes

/-!
# Deflated data

A deflated stream is a list of blocks, read bit by bit with the lowest bit of a byte
first. A block is stored as it is, or it is a list of symbols: a byte, the end of the
block, or a copy of bytes that came before. Symbols are written in prefix codes, which
are either fixed or stored at the start of the block.

A stream may break off anywhere; what was read until then counts. A stream that says
something impossible is `corrupt`.
-/

namespace Classdesk.Archive

/-- Bits that are still to be read. -/
abbrev Bits := List Bool

/-- The bits of a byte, the lowest first. -/
def bitsOfByte (b : UInt8) : Bits := (List.range 8).map fun i => b.toNat.testBit i

/-- The number with these bits, the lowest first. -/
def natOfBits (bits : Bits) : Nat := bits.foldr (fun b n => 2 * n + b.toNat) 0

namespace Inflate

/-- Why a stream ends early. -/
inductive Stop
  /-- The input broke off. -/
  | endOfInput
  /-- The input says something impossible. -/
  | corrupt
  deriving DecidableEq, Repr

/-- Reading from bits. -/
abbrev BitReader (α : Type) := StateT Bits (Except Stop) α

/-- The number in the next `n` bits, the lowest first. -/
def number (n : Nat) : BitReader Nat := fun bits =>
  let taken := bits.take n
  if taken.length < n then .error .endOfInput else .ok (natOfBits taken, bits.drop n)

/-! ## Codes -/

/-- A prefix code: where each sequence of bits leads. -/
inductive Code
  /-- No symbol is written like this. -/
  | unused
  | symbol (n : Nat)
  | branch (zero one : Code)
  deriving Repr

/-- A code with one more symbol at the end of some bits. -/
def Code.insert (symbol : Nat) : Bits → Code → Code
  | [], _ => .symbol symbol
  | bit :: bits, code =>
    let (zero, one) :=
      match code with
      | .branch zero one => (zero, one)
      | _ => (.unused, .unused)
    if bit then .branch zero (one.insert symbol bits) else .branch (zero.insert symbol bits) one

/-- The lowest `n` bits of a number, the highest first. -/
def highestFirst (n value : Nat) : Bits := (List.range n).reverse.map value.testBit

/-- The symbols whose lengths are given, with their bits: shorter ones first, and those
of one length in the order of the symbols. A symbol of length zero is not written. -/
def assignments (lengths : List Nat) : List (Nat × Bits) :=
  let numbered := lengths.zipIdx
  ((List.range 16).drop 1).foldl
    (fun (acc : List (Nat × Bits) × Nat) length =>
      let symbols := (numbered.filter (·.1 == length)).map Prod.snd
      let start := acc.2 * 2
      (acc.1 ++ symbols.zipIdx.map fun (symbol, i) => (symbol, highestFirst length (start + i)),
        start + symbols.length))
    ([], 0) |>.1

/-- The share of all sequences of bits that some lengths take up, in units of the
longest ones. -/
def usage (lengths : List Nat) : Nat :=
  lengths.foldl (fun n length => if length = 0 then n else n + Nat.pow 2 (15 - length)) 0

/-- The code of some lengths. It must use up all sequences of bits, unless it has at most
one symbol. -/
def Code.ofLengths (lengths : List Nat) : Except Stop Code :=
  if usage lengths = Nat.pow 2 15 || (lengths.filter (· ≠ 0)).length ≤ 1 then
    .ok ((assignments lengths).foldl (fun code (n, bits) => code.insert n bits) .unused)
  else .error .corrupt

/-- The next symbol of a code. -/
def Code.next : Code → BitReader Nat
  | .symbol n, bits => .ok (n, bits)
  | .unused, _ => .error .corrupt
  | .branch _ _, [] => .error .endOfInput
  | .branch zero one, bit :: bits => if bit then one.next bits else zero.next bits

/-! ## Blocks -/

/-- The two codes of a block. -/
structure Codes where
  symbols : Code
  distances : Code

/-- The lengths of the fixed code for symbols. -/
def fixedLengths : List Nat :=
  List.replicate 144 8 ++ List.replicate 112 9 ++ List.replicate 24 7 ++ List.replicate 8 8

/-- The fixed codes. -/
def fixedCodes : Except Stop Codes := do
  pure ⟨← Code.ofLengths fixedLengths, ← Code.ofLengths (List.replicate 32 5)⟩

/-- The order in which the lengths of the code for lengths are stored. -/
def lengthOrder : List Nat := [16, 17, 18, 0, 8, 7, 9, 6, 10, 5, 11, 4, 12, 3, 13, 2, 14, 1, 15]

/-- Read a number of code lengths; the latest stands first. Repetitions take what is
left of `fuel`, and must not go beyond the number. -/
def lengthsFrom (code : Code) (count : Nat) :
    (fuel : Nat) → List Nat → BitReader (List Nat)
  | 0, read => pure read
  | fuel + 1, read => do
    if read.length ≥ count then
      if read.length = count then return read else throw .corrupt
    let symbol ← code.next
    match symbol with
    | 16 =>
      match read with
      | [] => throw .corrupt
      | previous :: _ =>
        let times ← number 2
        lengthsFrom code count fuel (List.replicate (times + 3) previous ++ read)
    | 17 =>
      let times ← number 3
      lengthsFrom code count fuel (List.replicate (times + 3) 0 ++ read)
    | 18 =>
      let times ← number 7
      lengthsFrom code count fuel (List.replicate (times + 11) 0 ++ read)
    | length => lengthsFrom code count fuel (length :: read)

/-- Read the codes of a block. -/
def storedCodes : BitReader Codes := do
  let symbolCount := (← number 5) + 257
  let distanceCount := (← number 5) + 1
  let lengthCount := (← number 4) + 4
  if symbolCount > 286 || distanceCount > 30 then throw .corrupt
  let sizes ← (List.range lengthCount).mapM fun _ => number 3
  let lengths := (List.range 19).map fun n => ((lengthOrder.zip sizes).lookup n).getD 0
  let code ← Code.ofLengths lengths
  let count := symbolCount + distanceCount
  let read ← lengthsFrom code count (count + 1) []
  let all := read.reverse
  pure ⟨← Code.ofLengths (all.take symbolCount), ← Code.ofLengths (all.drop symbolCount)⟩

/-- The smallest value and the number of extra bits of a symbol for a length. -/
def lengthRange? (symbol : Nat) : Option (Nat × Nat) :=
  ([(3, 0), (4, 0), (5, 0), (6, 0), (7, 0), (8, 0), (9, 0), (10, 0), (11, 1), (13, 1), (15, 1),
    (17, 1), (19, 2), (23, 2), (27, 2), (31, 2), (35, 3), (43, 3), (51, 3), (59, 3), (67, 4),
    (83, 4), (99, 4), (115, 4), (131, 5), (163, 5), (195, 5), (227, 5), (258, 0)])[symbol - 257]?

/-- The smallest value and the number of extra bits of a symbol for a distance. -/
def distanceRange? (symbol : Nat) : Option (Nat × Nat) :=
  if symbol < 4 then some (symbol + 1, 0)
  else if symbol < 30 then
    let extra := symbol / 2 - 1
    some ((2 + symbol % 2) * Nat.pow 2 extra + 1, extra)
  else none

/-- A value in a range. -/
def within (range : Option (Nat × Nat)) : BitReader Nat :=
  match range with
  | some (least, extra) => do pure (least + (← number extra))
  | none => throw .corrupt

/-- Repeat what came some distance before. In front of the first byte there are only
zeros. -/
def copy (distance : Nat) : (length : Nat) → Array UInt8 → Array UInt8
  | 0, out => out
  | length + 1, out =>
    let b := if distance ≤ out.size then out.getD (out.size - distance) 0 else 0
    copy distance length (out.push b)

/-- What was read when a stream ends, and why it ends there if that is early. -/
abbrev Result := Array UInt8 × Except Stop Bits

/-- Read symbols up to the end of the block. Every symbol takes at least one bit, so the
number of bits is enough fuel. -/
def symbolsFrom (codes : Codes) : (fuel : Nat) → Array UInt8 → Bits → Result
  | 0, out, _ => (out, .error .endOfInput)
  | fuel + 1, out, bits =>
    match codes.symbols.next bits with
    | .error stop => (out, .error stop)
    | .ok (symbol, bits) =>
      if symbol < 256 then symbolsFrom codes fuel (out.push (UInt8.ofNat symbol)) bits
      else if symbol = 256 then (out, .ok bits)
      else
        let range : BitReader (Nat × Nat) := do
          let length ← within (lengthRange? symbol)
          let distance ← within (distanceRange? (← codes.distances.next))
          pure (length, distance)
        match range bits with
        | .error stop => (out, .error stop)
        | .ok ((length, distance), bits) => symbolsFrom codes fuel (copy distance length out) bits

/-- Read the bytes of a stored block, as far as they are there. -/
def plainBytes : (count : Nat) → Array UInt8 → Bits → Result
  | 0, out, bits => (out, .ok bits)
  | count + 1, out, bits =>
    match number 8 bits with
    | .error stop => (out, .error stop)
    | .ok (b, bits) => plainBytes count (out.push (UInt8.ofNat b)) bits

/-- The two lengths at the start of a stored block, of which one is the other with all
bits flipped. -/
def plainLength : BitReader Nat := do
  let length ← number 16
  let flipped ← number 16
  if length + flipped = 65535 then pure length else throw .corrupt

/-- Read a block of some kind. -/
def block (kind : Nat) (out : Array UInt8) (bits : Bits) : Result :=
  let coded (codes : Except Stop (Codes × Bits)) : Result :=
    match codes with
    | .error stop => (out, .error stop)
    | .ok (codes, bits) => symbolsFrom codes (bits.length + 1) out bits
  match kind with
  | 0 =>
    match plainLength (bits.drop (bits.length % 8)) with
    | .error stop => (out, .error stop)
    | .ok (length, bits) => plainBytes length out bits
  | 1 => coded (fixedCodes.map (·, bits))
  | 2 => coded (storedCodes bits)
  | _ => (out, .error .corrupt)

/-- Read blocks up to the last one. Every block takes at least three bits. -/
def blocks : (fuel : Nat) → Array UInt8 → Bits → Result
  | 0, out, _ => (out, .error .endOfInput)
  | fuel + 1, out, bits =>
    let header : BitReader (Nat × Nat) := do pure (← number 1, ← number 2)
    match header bits with
    | .error stop => (out, .error stop)
    | .ok ((last, kind), bits) =>
      match block kind out bits with
      | (out, .ok bits) => if last = 1 then (out, .ok bits) else blocks fuel out bits
      | result => result

end Inflate

/-- The data of a deflated stream, which may break off; nothing if it is corrupt. -/
def inflate? (bs : Bytes) : Option Bytes :=
  let bits := bs.flatMap bitsOfByte
  match Inflate.blocks (bits.length + 1) #[] bits with
  | (_, .error .corrupt) => none
  | (out, _) => some out.toList

end Classdesk.Archive
