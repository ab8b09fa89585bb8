import Classdesk.Bytecode.Instruction
import Classdesk.Format.Attribute

/-!
# Decoding code

`decode` turns the bytes of a method into instructions. A first pass reads one
instruction after the other, with byte offsets as places. Then every place must
be the start of an instruction; ranges of handlers may also lead to the end of
the code. Last, the places are numbered in code order, and labels and line
numbers are put in front of the instructions they belong to.
-/

namespace Classdesk.Bytecode

/-- A position in the code and the bytes from there on. -/
structure Cursor where
  position : Nat
  rest : Bytes

/-- Reading operands. -/
abbrev CodeReader := StateT Cursor (Except ClassFault)

/-- Where an instruction stands and what it can refer to. -/
structure Site where
  /-- Offset of the instruction. -/
  start : Nat
  /-- Number of bytes of the whole code. -/
  codeLength : Nat
  pool : Pool

namespace Site

variable (site : Site)

/-! ## Operands -/

/-- Read a `w`-byte number. -/
def word (w : Nat) : CodeReader Nat := fun cursor =>
  let bytes := cursor.rest.take w
  if bytes.length = w then
    .ok (Bytes.toNat bytes, ⟨cursor.position + w, cursor.rest.drop w⟩)
  else .error (.truncatedCode site.start)

/-- Read an unsigned byte. -/
def byte : CodeReader UInt8 := UInt8.ofNat <$> site.word 1

/-- Read an unsigned 16-bit number. -/
def short : CodeReader UInt16 := UInt16.ofNat <$> site.word 2

/-- Read a signed 32-bit number. -/
def signedInt : CodeReader Int32 := Int32.ofNat <$> site.word 4

/-- Skip the bytes in front of the next multiple of four. -/
def align : CodeReader Unit := fun cursor =>
  (site.word ((4 - cursor.position % 4) % 4) cursor).map fun (_, cursor) => ((), cursor)

/-- The place at a distance from the instruction; it must lie inside the code. -/
def place (distance : Int) : Except ClassFault Nat :=
  let target := site.start + distance
  if 0 ≤ target ∧ target < site.codeLength then .ok target.toNat
  else .error (.invalidJump site.start target)

/-- Read a 16-bit distance. -/
def branch : CodeReader Nat := do
  let distance ← Int16.ofNat <$> site.word 2
  site.place distance.toInt

/-- Read a 32-bit distance. -/
def branchWide : CodeReader Nat := do
  let distance ← site.signedInt
  site.place distance.toInt

/-- Read `n` 32-bit distances. -/
def branches : Nat → CodeReader (List Nat)
  | 0 => pure []
  | n + 1 => do
    let target ← site.branchWide
    let targets ← branches n
    pure (target :: targets)

/-- Read `n` pairs of a value and a 32-bit distance. -/
def cases : Nat → CodeReader (List (Int32 × Nat))
  | 0 => pure []
  | n + 1 => do
    let key ← site.signedInt
    let target ← site.branchWide
    let pairs ← cases n
    pure ((key, target) :: pairs)

/-! ## Constants -/

/-- The constant at an index, as something that can be pushed. -/
def loadable (index : ConstIndex) : Except ClassFault LoadableConstant := do
  match ← site.pool.get index with
  | .integer value => pure (.integer value)
  | .float bits => pure (.float bits)
  | .long value => pure (.long value)
  | .double bits => pure (.double bits)
  | .string value => .string <$> site.pool.text value
  | .classRef name => .classRef <$> site.pool.text name
  | .methodType descriptor => .methodType <$> site.pool.text descriptor
  | .methodHandle kind member => do
    let (member, _) ← site.pool.member member
    pure (.methodHandle kind member)
  | .dynamic _ shape => do
    let (name, descriptor) ← site.pool.nameAndType shape
    pure (.dynamic name descriptor)
  | _ => throw (.unexpectedConstant index .loadable)

/-- The call site at an index. -/
def callSite (index : ConstIndex) : Except ClassFault (UInt16 × String × String) := do
  match ← site.pool.get index with
  | .invokeDynamic bootstrap shape => do
    let (name, descriptor) ← site.pool.nameAndType shape
    pure (bootstrap, name, descriptor)
  | _ => throw (.unexpectedConstant index .callSite)

/-! ## Instructions -/

/-- The number of targets of a table switch. In 32 bits the difference of the bounds
could wrap around, so it is taken in 64. -/
def entryCount (low high : Int32) : UInt64 := (high.toInt64 - low.toInt64 + 1).toUInt64

/-- Read the operands of a table switch. -/
def tableSwitch : CodeReader (Instruction Nat) := do
  site.align
  let default ← site.branchWide
  let low ← site.signedInt
  let high ← site.signedInt
  if high.toInt < low.toInt then throw (.invalidOperand site.start 0xAA)
  let count := (entryCount low high).toNat
  if count > site.codeLength then throw (.truncatedCode site.start)
  let targets ← site.branches count
  pure (.tableSwitch default low targets)

/-- Read the operands of a lookup switch. -/
def lookupSwitch : CodeReader (Instruction Nat) := do
  site.align
  let default ← site.branchWide
  let count ← site.signedInt
  if count.toInt < 0 then throw (.invalidOperand site.start 0xAB)
  if count.toInt.toNat > site.codeLength then throw (.truncatedCode site.start)
  let pairs ← site.cases count.toInt.toNat
  pure (.lookupSwitch default pairs)

/-- Read the instruction behind `wide`. -/
def wide : CodeReader (Instruction Nat) := do
  let opcode ← site.byte
  if Opcode.isLocal opcode then .localAccess opcode <$> site.short
  else if opcode == 0x84 then do
    let index ← site.short
    let delta ← Int16.ofNat <$> site.word 2
    pure (.increment index delta)
  else throw (.invalidOperand site.start 0xC4)

/-- Read the operands behind an opcode. -/
def operands (opcode : UInt8) : CodeReader (Instruction Nat) :=
  match Opcode.operands opcode with
  | .none => pure (.simple opcode)
  | .pushByte => do
    let value ← Int8.ofNat <$> site.word 1
    pure (.push opcode value.toInt32)
  | .pushShort => do
    let value ← Int16.ofNat <$> site.word 2
    pure (.push opcode value.toInt32)
  | .constantNarrow => do
    let index ← site.byte
    let value ← site.loadable index.toUInt16
    pure (.constant opcode value)
  | .constantWide => do
    let index ← site.short
    let value ← site.loadable index
    pure (.constant opcode value)
  | .localIndex => do
    let index ← site.byte
    pure (.localAccess opcode index.toUInt16)
  | .increment => do
    let index ← site.byte
    let delta ← Int8.ofNat <$> site.word 1
    pure (.increment index.toUInt16 delta.toInt16)
  | .branch => .jump opcode <$> site.branch
  | .branchWide => .jump opcode <$> site.branchWide
  | .tableSwitch => site.tableSwitch
  | .lookupSwitch => site.lookupSwitch
  | .field => do
    let index ← site.short
    let (member, _) ← site.pool.member index
    pure (.field opcode member)
  | .method => do
    let index ← site.short
    let (member, isInterface) ← site.pool.member index
    pure (.method opcode member isInterface)
  | .interfaceMethod => do
    let index ← site.short
    let _ ← site.short
    let (member, isInterface) ← site.pool.member index
    pure (.method opcode member isInterface)
  | .dynamicCall => do
    let index ← site.short
    let _ ← site.short
    let (bootstrap, name, descriptor) ← site.callSite index
    pure (.invokeDynamic bootstrap name descriptor)
  | .type => do
    let index ← site.short
    let name ← site.pool.className index
    pure (.type opcode name)
  | .newArray => do
    let code ← site.byte
    match BaseType.ofArrayCode? code with
    | some element => pure (.newArray element)
    | none => throw (.invalidOperand site.start opcode)
  | .multiArray => do
    let index ← site.short
    let name ← site.pool.className index
    let dimensions ← site.byte
    pure (.multiArray name dimensions)
  | .wide => site.wide

/-- Read one instruction. -/
def instruction : CodeReader (Instruction Nat) := do
  let opcode ← site.byte
  site.operands opcode

end Site

/-! ## The first pass -/

/-- Read instructions up to the end of the code. Every instruction takes a byte,
so `fuel` beyond the number of bytes changes nothing. -/
def readAll (codeLength : Nat) (pool : Pool) :
    (fuel : Nat) → Cursor → Except ClassFault (List (Nat × Instruction Nat))
  | 0, _ => .ok []
  | fuel + 1, cursor =>
    if cursor.rest.isEmpty then .ok []
    else do
      let site : Site := ⟨cursor.position, codeLength, pool⟩
      let (i, next) ← site.instruction cursor
      let others ← readAll codeLength pool fuel next
      .ok ((cursor.position, i) :: others)

/-- The instructions of some code with their offsets. -/
def layout (code : Bytes) (pool : Pool) : Except ClassFault (List (Nat × Instruction Nat)) :=
  readAll code.length pool code.length ⟨0, code⟩

/-! ## Places -/

/-- Check that jumps lead to starts of instructions. -/
def checkJumps (starts : List Nat) : List (Nat × Nat) → Except ClassFault Unit
  | [] => .ok ()
  | (offset, target) :: jumps =>
    if starts.contains target then checkJumps starts jumps
    else .error (.invalidJump offset target)

/-- The places that a handler names, with the offset a fault is reported at. -/
def handlerPlaces (h : Handler) : List (Nat × Nat) :=
  [h.start, h.stop, h.target].map fun place => (h.start.toNat, place.toNat)

/-- The second pass: number the places and put labels and line numbers in. -/
def annotate (places : List Nat) (lines : List LineEntry) (codeLength : Nat)
    (decoded : List (Nat × Instruction Nat)) : List (Instruction Label) :=
  let label (place : Nat) : Label := ⟨places.idxOf place⟩
  let mark (place : Nat) : List (Instruction Label) :=
    if places.contains place then [.label (label place)] else []
  let linesAt (offset : Nat) : List (Instruction Label) :=
    (lines.filter (·.start.toNat == offset)).map fun e => .lineNumber e.line
  decoded.flatMap (fun (offset, i) =>
    mark offset ++ linesAt offset ++ [i.mapPlaces label]) ++ mark codeLength

/-- The instructions of a method body. -/
def decode (code : Code) (pool : Pool) : Except ClassFault (List (Instruction Label)) := do
  let codeLength := code.code.length
  let decoded ← layout code.code pool
  let starts := decoded.map Prod.fst
  let jumps := decoded.flatMap fun (offset, i) => i.places.map fun target => (offset, target)
  let ranges := code.handlers.flatMap handlerPlaces
  checkJumps starts jumps
  checkJumps (starts ++ [codeLength]) ranges
  let lines ← Attribute.find LineTable pool code.attributes
  let targets := (jumps ++ ranges).map Prod.snd
  let places := (starts ++ [codeLength]).filter targets.contains
  .ok (annotate places ((lines.map LineTable.entries).getD []) codeLength decoded)

end Classdesk.Bytecode
