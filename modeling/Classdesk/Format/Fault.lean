import Classdesk.Descriptor
import Classdesk.Format.Codec

/-!
# Faults of class files

Every way in which a class file, its constants or its code can be wrong, with
the wording of each.
-/

namespace Classdesk

/-- Position of a constant in the pool. -/
abbrev ConstIndex := UInt16

/-- What a reference to the pool was expected to lead to. -/
inductive ConstantRole
  | text | className | nameAndType | member | callSite | loadable | initialValue
  deriving DecidableEq, Repr

/-- The phrase for what was expected. -/
def ConstantRole.phrase : ConstantRole → String
  | text => "Utf8"
  | className => "Class"
  | nameAndType => "NameAndType"
  | member => "Fieldref or Methodref"
  | callSite => "InvokeDynamic"
  | loadable => "loadable constant"
  | initialValue => "field constant value"

/-- What is wrong with a class file. -/
inductive ClassFault
  /-- A value could not be read or written. -/
  | stream (fault : StreamFault)
  /-- The file does not start with the class-file magic number. -/
  | badMagic (magic : UInt32)
  /-- An index is zero, out of range, or in the second slot of a wide constant. -/
  | invalidIndex (index : ConstIndex)
  /-- The constant is there but of another kind. -/
  | unexpectedConstant (index : ConstIndex) (expected : ConstantRole)
  /-- A constant or method handle has an unknown kind. -/
  | unknownTag (tag : UInt8)
  | badDescriptor (text : String) (fault : DescriptorFault)
  | malformedName (fault : NameFault)
  /-- A text constant is not modified UTF-8. -/
  | malformedText
  /-- The code ends inside the instruction at `offset`. -/
  | truncatedCode (offset : Nat)
  /-- A target is not the start of an instruction. -/
  | invalidJump (offset : Nat) (target : Int)
  /-- An operand that its instruction cannot have. -/
  | invalidOperand (offset : Nat) (opcode : UInt8)
  /-- The constant pool has no room. -/
  | poolFull
  deriving DecidableEq, Repr

namespace ClassFault

/-- A number in hexadecimal, capital digits, at least `width` of them. -/
def hex (width n : Nat) : String :=
  let digits := String.ofList ((Nat.toDigits 16 n).map Char.toUpper)
  "0x" ++ String.ofList (List.replicate (width - digits.length) '0') ++ digits

/-- The wording of a fault. -/
def message : ClassFault → String
  | stream fault => s!"I/O error: {fault.message}"
  | badMagic magic => s!"Bad magic number {hex 8 magic.toNat}"
  | invalidIndex index => s!"Invalid constant index {index}"
  | unexpectedConstant index expected =>
    s!"Constant at index {index} is not a {expected.phrase}"
  | unknownTag tag => s!"Unknown constant tag {tag}"
  | badDescriptor text fault => s!"Bad descriptor: {text}: {fault.message}"
  | malformedName fault => s!"Malformed name: {fault.message}"
  | malformedText => "Malformed modified UTF-8 string"
  | truncatedCode offset => s!"Code ends in the middle of the instruction at {offset}"
  | invalidJump offset target =>
    s!"Instruction at {offset} jumps to {target}, outside of the code"
  | invalidOperand offset opcode =>
    s!"Invalid operand for opcode {hex 2 opcode.toNat} at {offset}"
  | poolFull => "Too many entries in constant pool"

end ClassFault

/-- Read a stored value, reporting a failure as a fault of the class file. -/
def stored {α : Type} [Codec α] : Reader ClassFault α :=
  Reader.mapFault .stream Codec.read

end Classdesk
