import Classdesk.Format.AccessFlags
import Classdesk.Format.Attribute

/-!
# Class files

The stored form of a class, with everything still pointing into the constant
pool. Reading stops behind the last attribute and ignores what follows.
-/

namespace Classdesk

/-- Version of the class-file format. -/
structure Version where
  minor : UInt16
  major : UInt16
  deriving DecidableEq, Repr

namespace Version

instance : Codec Version where
  read := Version.mk <$> Codec.read <*> Codec.read
  write v := .ok (Bytes.ofNat 2 v.minor.toNat ++ Bytes.ofNat 2 v.major.toNat)

/-- The version of Java 8. -/
def java8 : Version := ⟨0, 52⟩

/-- Versions are ordered by their minor number first. -/
def isBefore (v w : Version) : Bool :=
  v.minor < w.minor || (v.minor == w.minor && v.major < w.major)

end Version

/-- A field or a method, with flags among the bits of `named`. -/
structure Member (named : UInt16) where
  flags : AccessFlags named
  name : ConstIndex
  descriptor : ConstIndex
  attributes : List Attribute
  deriving DecidableEq

/-- A field as it is stored. -/
abbrev StoredField := Member 0x50DF

/-- A method as it is stored. -/
abbrev StoredMethod := Member 0x1DFF

instance {named : UInt16} : Codec (Member named) where
  read := Member.mk <$> Codec.read <*> Codec.read <*> Codec.read <*> Codec.read
  write m := do
    let flags ← Codec.write m.flags
    let attributes ← Codec.write m.attributes
    pure (flags ++ (Bytes.ofNat 2 m.name.toNat ++
      (Bytes.ofNat 2 m.descriptor.toNat ++ attributes)))

/-- A class as it is stored. -/
structure ClassFile where
  version : Version
  pool : Pool
  flags : ClassFlags
  thisClass : ConstIndex
  /-- Zero for the one class that has no superclass. -/
  superClass : ConstIndex
  interfaces : List ConstIndex
  fields : List StoredField
  methods : List StoredMethod
  attributes : List Attribute

namespace ClassFile

/-- The number every class file starts with. -/
def magic : UInt32 := 0xCAFEBABE

/-- Read a class off the front of the bytes. -/
def read : Reader ClassFault ClassFile := do
  let found : UInt32 ← stored
  if found ≠ magic then throw (.badMagic found)
  let version ← stored
  let pool ← Pool.read
  let flags ← stored
  let thisClass ← stored
  let superClass ← stored
  let interfaces ← stored
  let fields ← stored
  let methods ← stored
  let attributes ← stored
  pure { version, pool, flags, thisClass, superClass, interfaces, fields, methods, attributes }

/-- The class at the front of the bytes. -/
def parse (bs : Bytes) : Except ClassFault ClassFile :=
  (read bs).map Prod.fst

/-- The stored form of a class. -/
def write (c : ClassFile) : Except StreamFault Bytes := do
  let version ← Codec.write c.version
  let pool ← c.pool.write
  let flags ← Codec.write c.flags
  let thisClass ← Codec.write c.thisClass
  let superClass ← Codec.write c.superClass
  let interfaces ← Codec.write c.interfaces
  let fields ← Codec.write c.fields
  let methods ← Codec.write c.methods
  let attributes ← Codec.write c.attributes
  pure (Bytes.ofNat 4 magic.toNat ++ (version ++ (pool ++ (flags ++ (thisClass ++
    (superClass ++ (interfaces ++ (fields ++ (methods ++ attributes)))))))))

/-- The name of the class. -/
def className (c : ClassFile) : Except ClassFault String :=
  c.pool.className c.thisClass

/-- The name of the superclass, if there is one. -/
def superClassName (c : ClassFile) : Except ClassFault (Option String) :=
  if c.superClass = 0 then .ok none else some <$> c.pool.className c.superClass

end ClassFile

end Classdesk
