import Classdesk.Format.Fault
import Classdesk.Text.ModifiedUtf8

/-!
# Constants

The entries of a constant pool and how they are stored: a tag byte, then the
parts. Numbers with a fraction are kept as their bit patterns, so that every NaN
is itself. A `long` or `double` takes two slots of the pool.
-/

namespace Classdesk

/-- What a method handle does with its member. -/
inductive HandleKind
  | getField | getStatic | putField | putStatic
  | invokeVirtual | invokeStatic | invokeSpecial | newInvokeSpecial | invokeInterface
  deriving DecidableEq, Repr, Hashable

namespace HandleKind

/-- The stored number of a kind. -/
def code : HandleKind → UInt8
  | getField => 1
  | getStatic => 2
  | putField => 3
  | putStatic => 4
  | invokeVirtual => 5
  | invokeStatic => 6
  | invokeSpecial => 7
  | newInvokeSpecial => 8
  | invokeInterface => 9

/-- The kind with this number. -/
def ofCode? (code : UInt8) : Option HandleKind :=
  match code.toNat with
  | 1 => some getField
  | 2 => some getStatic
  | 3 => some putField
  | 4 => some putStatic
  | 5 => some invokeVirtual
  | 6 => some invokeStatic
  | 7 => some invokeSpecial
  | 8 => some newInvokeSpecial
  | 9 => some invokeInterface
  | _ => none

/-- The name of a kind in listings. -/
def name : HandleKind → String
  | getField => "GetField"
  | getStatic => "GetStatic"
  | putField => "PutField"
  | putStatic => "PutStatic"
  | invokeVirtual => "InvokeVirtual"
  | invokeStatic => "InvokeStatic"
  | invokeSpecial => "InvokeSpecial"
  | newInvokeSpecial => "NewInvokeSpecial"
  | invokeInterface => "InvokeInterface"

@[simp] theorem ofCode?_code (k : HandleKind) : ofCode? k.code = some k := by
  cases k <;> rfl

end HandleKind

/-- An entry of the constant pool. -/
inductive Constant
  | text (value : String)
  | integer (value : Int32)
  | float (bits : UInt32)
  | long (value : Int64)
  | double (bits : UInt64)
  | classRef (name : ConstIndex)
  | string (value : ConstIndex)
  | fieldRef (owner shape : ConstIndex)
  | methodRef (owner shape : ConstIndex) (isInterface : Bool)
  | nameAndType (name descriptor : ConstIndex)
  | methodHandle (kind : HandleKind) (member : ConstIndex)
  | methodType (descriptor : ConstIndex)
  | dynamic (bootstrap : UInt16) (shape : ConstIndex)
  | invokeDynamic (bootstrap : UInt16) (shape : ConstIndex)
  | moduleRef (name : ConstIndex)
  | packageRef (name : ConstIndex)
  deriving DecidableEq, Repr, Hashable

namespace Constant

/-- How many slots a constant takes. -/
def width : Constant → Nat
  | long _ | double _ => 2
  | _ => 1

/-- Whether inserting an equal constant again gives the one already there. -/
def isShared : Constant → Bool
  | text _ | classRef _ | string _ | integer _ | long _ | nameAndType .. | fieldRef ..
  | methodRef .. => true
  | _ => false

/-- The text that some bytes stand for. -/
def textOf (bytes : Bytes) : Except ClassFault String :=
  match Text.ModifiedUtf8.decode bytes with
  | some cs => .ok (String.ofList cs)
  | none => .error .malformedText

/-- Read a text constant behind its tag. -/
def readText : Reader ClassFault Constant := do
  let size : UInt16 ← stored
  let bytes ← (Codec.readBlock size.toNat).mapFault .stream
  pure (text (← textOf bytes))

/-- Read a method handle behind its tag. -/
def readHandle : Reader ClassFault Constant := do
  let code : UInt8 ← stored
  match HandleKind.ofCode? code with
  | some kind => methodHandle kind <$> stored
  | none => throw (.unknownTag code)

/-- Read one tagged constant. -/
def read : Reader ClassFault Constant := do
  let tag : UInt8 ← stored
  match tag.toNat with
  | 1 => readText
  | 3 => integer <$> stored
  | 4 => float <$> stored
  | 5 => long <$> stored
  | 6 => double <$> stored
  | 7 => classRef <$> stored
  | 8 => string <$> stored
  | 9 => fieldRef <$> stored <*> stored
  | 10 => (methodRef · · false) <$> stored <*> stored
  | 11 => (methodRef · · true) <$> stored <*> stored
  | 12 => nameAndType <$> stored <*> stored
  | 15 => readHandle
  | 16 => methodType <$> stored
  | 17 => dynamic <$> stored <*> stored
  | 18 => invokeDynamic <$> stored <*> stored
  | 19 => moduleRef <$> stored
  | 20 => packageRef <$> stored
  | _ => throw (.unknownTag tag)

/-- The stored form of a constant: a tag, then its parts. -/
def write : Constant → Except StreamFault Bytes
  | text value =>
    let bytes := Text.ModifiedUtf8.encode value.toList
    if bytes.length < 65536 then .ok (1 :: Bytes.ofNat 2 bytes.length ++ bytes)
    else .error .textTooLong
  | integer value => .ok (3 :: Bytes.ofNat 4 value.toUInt32.toNat)
  | float bits => .ok (4 :: Bytes.ofNat 4 bits.toNat)
  | long value => .ok (5 :: Bytes.ofNat 8 value.toUInt64.toNat)
  | double bits => .ok (6 :: Bytes.ofNat 8 bits.toNat)
  | classRef name => .ok (7 :: Bytes.ofNat 2 name.toNat)
  | string value => .ok (8 :: Bytes.ofNat 2 value.toNat)
  | fieldRef owner shape => .ok (9 :: pair owner shape)
  | methodRef owner shape isInterface =>
    .ok ((if isInterface then 11 else 10) :: pair owner shape)
  | nameAndType name descriptor => .ok (12 :: pair name descriptor)
  | methodHandle kind member => .ok (15 :: kind.code :: Bytes.ofNat 2 member.toNat)
  | methodType descriptor => .ok (16 :: Bytes.ofNat 2 descriptor.toNat)
  | dynamic bootstrap shape => .ok (17 :: pair bootstrap shape)
  | invokeDynamic bootstrap shape => .ok (18 :: pair bootstrap shape)
  | moduleRef name => .ok (19 :: Bytes.ofNat 2 name.toNat)
  | packageRef name => .ok (20 :: Bytes.ofNat 2 name.toNat)
where
  /-- Two words in a row. -/
  pair (a b : UInt16) : Bytes := Bytes.ofNat 2 a.toNat ++ Bytes.ofNat 2 b.toNat

end Constant

end Classdesk
