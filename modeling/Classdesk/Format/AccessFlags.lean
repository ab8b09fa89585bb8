import Classdesk.Format.Codec

/-!
# Access flags and modifiers

A flag word keeps only the bits that have a name for its kind of declaration;
reading drops the others, and the type remembers that they are gone. Modifiers
are the flags that a listing shows, always in the same order.
-/

namespace Classdesk

/-- A word of flags among the bits of `named`. -/
structure AccessFlags (named : UInt16) where
  bits : UInt16
  named_only : bits &&& named = bits
  deriving DecidableEq

namespace AccessFlags

/-- The named bits of a word. -/
def truncate (named word : UInt16) : AccessFlags named where
  bits := word &&& named
  named_only := by rw [UInt16.and_assoc, UInt16.and_self]

/-- Flags are stored as a word; unnamed bits are dropped when reading. -/
instance {named : UInt16} : Codec (AccessFlags named) where
  read := truncate named <$> Codec.read
  write flags := Codec.write flags.bits

end AccessFlags

/-- Flags of classes: public, final, super, interface, abstract, synthetic,
annotation, enum and module. -/
abbrev ClassFlags := AccessFlags 0xF631

/-- Flags of methods: public, private, protected, static, final, synchronized,
bridge, varargs, native, abstract, strict and synthetic. -/
abbrev MethodFlags := AccessFlags 0x1DFF

/-- Flags of fields: public, private, protected, static, final, volatile,
transient, synthetic and enum. -/
abbrev FieldFlags := AccessFlags 0x50DF

/-- Modifiers that a listing shows in front of a declaration. -/
inductive Modifier
  | privateAccess | publicAccess | protectedAccess | static | synchronized | final
  deriving DecidableEq, Repr

namespace Modifier

/-- The order in which modifiers are written. -/
def all : List Modifier :=
  [.privateAccess, .publicAccess, .protectedAccess, .static, .synchronized, .final]

/-- The flag bit of a modifier. On classes the bit of `synchronized` means
something else. -/
def bit : Modifier → UInt16
  | .publicAccess => 0x0001
  | .privateAccess => 0x0002
  | .protectedAccess => 0x0004
  | .static => 0x0008
  | .final => 0x0010
  | .synchronized => 0x0020

/-- The keyword of a modifier. -/
def keyword : Modifier → String
  | .privateAccess => "private"
  | .publicAccess => "public"
  | .protectedAccess => "protected"
  | .static => "static"
  | .synchronized => "synchronized"
  | .final => "final"

/-- The modifiers set in a word, in their fixed order, without those excluded. -/
def ofBits (bits : UInt16) (excluded : List Modifier) : List Modifier :=
  all.filter fun m => bits &&& m.bit != 0 && !excluded.contains m

end Modifier

end Classdesk
