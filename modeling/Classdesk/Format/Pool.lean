import Std.Data.HashMap
import Classdesk.Format.Constant

/-!
# The constant pool

Slot 0 is never used, a `long` or `double` is followed by an unused slot, and
there are at most 65535 slots. `firstIndex` remembers, for the constants that
are shared, the lowest index that holds them, so inserting one again finds it.

Inserting runs in `PoolM`, which keeps the pool when it fails: a reference that
does not fit may have left parts of itself behind.
-/

namespace Classdesk

/-- A table of constants. -/
structure Pool where
  /-- The constants by index; `none` where no constant starts. -/
  slots : Array (Option Constant)
  /-- The lowest index of each shared constant. -/
  firstIndex : Std.HashMap Constant ConstIndex

/-- Steps on a pool; a failing step still has a pool as its outcome. -/
abbrev PoolM := ExceptT ClassFault (StateM Pool)

/-- A reference to a field or a method, with its names looked up. -/
structure MemberRef where
  owner : String
  name : String
  descriptor : String
  deriving DecidableEq, Repr

namespace Pool

/-- The pool without constants. -/
def empty : Pool := ⟨#[none], ∅⟩

instance : Inhabited Pool := ⟨empty⟩

/-- The number of slots, the unused slot 0 included. -/
def slotCount (pool : Pool) : Nat := pool.slots.size

/-- The constants with their indices, in order. -/
def constants (pool : Pool) : List (Nat × Constant) :=
  pool.slots.toList.zipIdx.filterMap fun (slot, i) => slot.map fun c => (i, c)

/-! ## Inserting -/

/-- Append a constant. -/
def push (c : Constant) (pool : Pool) : Except ClassFault ConstIndex × Pool :=
  let i := UInt16.ofNat pool.slots.size
  if pool.slots.size + c.width > 65535 then (.error .poolFull, pool)
  else
    let slots := pool.slots.push (some c)
    let slots := if c.width = 2 then slots.push none else slots
    let firstIndex :=
      if c.isShared then pool.firstIndex.insertIfNew c i else pool.firstIndex
    (.ok i, ⟨slots, firstIndex⟩)

/-- Insert a constant, or find it if it is shared and already there. -/
def intern (c : Constant) : PoolM ConstIndex := fun pool =>
  match pool.firstIndex[c]? with
  | some i => (.ok i, pool)
  | none => push c pool

/-- Insert a text. -/
def internText (text : String) : PoolM ConstIndex := intern (.text text)

/-- Insert a class by its name. -/
def internClass (name : String) : PoolM ConstIndex := do
  intern (.classRef (← internText name))

/-- Insert a string constant. -/
def internString (value : String) : PoolM ConstIndex := do
  intern (.string (← internText value))

/-- Insert a name with a descriptor. -/
def internNameAndType (name descriptor : String) : PoolM ConstIndex := do
  let name ← internText name
  let descriptor ← internText descriptor
  intern (.nameAndType name descriptor)

/-- Insert a reference to a field. -/
def internField (member : MemberRef) : PoolM ConstIndex := do
  let owner ← internClass member.owner
  let shape ← internNameAndType member.name member.descriptor
  intern (.fieldRef owner shape)

/-- Insert a reference to a method. -/
def internMethod (member : MemberRef) (isInterface : Bool) : PoolM ConstIndex := do
  let owner ← internClass member.owner
  let shape ← internNameAndType member.name member.descriptor
  intern (.methodRef owner shape isInterface)

/-- What can be inserted, by value or by name. -/
inductive Insertion
  | text (value : String)
  | classRef (name : String)
  | string (value : String)
  | integer (value : Int32)
  | long (value : Int64)
  | float (bits : UInt32)
  | double (bits : UInt64)
  | nameAndType (name descriptor : String)
  | field (member : MemberRef)
  | method (member : MemberRef) (isInterface : Bool)

/-- The insertion as a step on pools. Numbers with a fraction are never looked for, since
some of them are not even equal to themselves. -/
def Insertion.run : Insertion → PoolM ConstIndex
  | text value => internText value
  | classRef name => internClass name
  | string value => internString value
  | integer value => intern (.integer value)
  | long value => intern (.long value)
  | float bits => push (.float bits)
  | double bits => push (.double bits)
  | nameAndType name descriptor => internNameAndType name descriptor
  | field member => internField member
  | method member isInterface => internMethod member isInterface

/-! ## Looking up -/

/-- The constant at an index. -/
def get (pool : Pool) (i : ConstIndex) : Except ClassFault Constant :=
  match pool.slots[i.toNat]? with
  | some (some c) => .ok c
  | _ => .error (.invalidIndex i)

/-- The text at an index. -/
def text (pool : Pool) (i : ConstIndex) : Except ClassFault String := do
  match ← pool.get i with
  | .text value => pure value
  | _ => throw (.unexpectedConstant i .text)

/-- The name of the class at an index. -/
def className (pool : Pool) (i : ConstIndex) : Except ClassFault String := do
  match ← pool.get i with
  | .classRef name => pool.text name
  | _ => throw (.unexpectedConstant i .className)

/-- The name and the descriptor at an index. -/
def nameAndType (pool : Pool) (i : ConstIndex) : Except ClassFault (String × String) := do
  match ← pool.get i with
  | .nameAndType name descriptor =>
    let name ← pool.text name
    let descriptor ← pool.text descriptor
    pure (name, descriptor)
  | _ => throw (.unexpectedConstant i .nameAndType)

/-- The field or method at an index, and whether an interface declares it. The
name and descriptor are looked up before the owner. -/
def member (pool : Pool) (i : ConstIndex) : Except ClassFault (MemberRef × Bool) := do
  match ← pool.get i with
  | .fieldRef owner shape => resolve owner shape false
  | .methodRef owner shape isInterface => resolve owner shape isInterface
  | _ => throw (.unexpectedConstant i .member)
where
  /-- Look up the parts of a member reference. -/
  resolve (owner shape : ConstIndex) (isInterface : Bool) := do
    let (name, descriptor) ← pool.nameAndType shape
    let owner ← pool.className owner
    pure (⟨owner, name, descriptor⟩, isInterface)

/-! ## Storing -/

/-- Append constants off the input until `count` slots are taken. Every constant
takes a slot, so `count` rounds are enough. -/
def readConstants (count : Nat) : (fuel : Nat) → Pool → Reader ClassFault Pool
  | 0, pool => pure pool
  | fuel + 1, pool =>
    if pool.slots.size < count then do
      let c ← Constant.read
      match pool.push c with
      | (.ok _, pool) => readConstants count fuel pool
      | (.error fault, _) => throw fault
    else pure pool

/-- Read a pool behind its slot count. -/
def read : Reader ClassFault Pool := do
  let count : UInt16 ← stored
  let pool ← readConstants count.toNat count.toNat empty
  if pool.slots.size = count.toNat then pure pool else throw .poolFull

/-- The stored form of a pool: the slot count, then the constants. -/
def write (pool : Pool) : Except StreamFault Bytes := do
  let constants ← Codec.writeEntries Constant.write (pool.slots.toList.filterMap id)
  pure (Bytes.ofNat 2 pool.slots.size ++ constants)

end Pool

end Classdesk
