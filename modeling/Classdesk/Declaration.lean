import Classdesk.Bytecode.Decode
import Classdesk.Format.ClassFile

/-!
# Declarations

A class with its names, types and constants looked up and its code decoded: what
a listing shows. The parts are looked up in the order in which they are declared
below, and the first fault decides.
-/

namespace Classdesk

/-- The value a constant field starts with. -/
inductive FieldValue
  | integer (value : Int32)
  | long (value : Int64)
  | float (bits : UInt32)
  | double (bits : UInt64)
  | string (value : String)
  deriving DecidableEq, Repr

/-- A value as it is listed behind a field. -/
def FieldValue.text : FieldValue → String
  | integer value => toString value.toInt
  | long value => toString value.toInt
  | float bits => floatText bits
  | double bits => doubleText bits
  | string value => Text.quote value

/-- A field. -/
structure FieldDeclaration where
  flags : FieldFlags
  name : MemberName
  type : FieldType
  value : Option FieldValue

/-- A method; one without code has no instructions. -/
structure MethodDeclaration where
  flags : MethodFlags
  name : MemberName
  type : MethodType
  instructions : List (Instruction Label)

/-- A class. -/
structure ClassDeclaration where
  flags : ClassFlags
  name : ClassName
  superclass : Option ClassName
  interfaces : List ClassName
  fields : List FieldDeclaration
  methods : List MethodDeclaration

namespace Pool

variable (pool : Pool)

/-- The member name at an index. -/
def memberName (index : ConstIndex) : Except ClassFault MemberName := do
  let text ← pool.text index
  (MemberName.ofString text).mapError .malformedName

/-- The type described at an index. -/
def described {α : Type} (parser : DescriptorParser α) (index : ConstIndex) :
    Except ClassFault α := do
  let text ← pool.text index
  (parser.run text).mapError (.badDescriptor text)

/-- The initial value at an index. -/
def fieldValue (index : ConstIndex) : Except ClassFault FieldValue := do
  match ← pool.get index with
  | .integer value => pure (.integer value)
  | .long value => pure (.long value)
  | .float bits => pure (.float bits)
  | .double bits => pure (.double bits)
  | .string value => .string <$> pool.text value
  | _ => throw (.unexpectedConstant index .initialValue)

end Pool

/-- Check a class name. -/
def checkedClassName (text : String) : Except ClassFault ClassName :=
  (ClassName.ofString text).mapError .malformedName

/-- Look up a field. -/
def FieldDeclaration.ofStored (pool : Pool) (field : StoredField) :
    Except ClassFault FieldDeclaration := do
  let name ← pool.memberName field.name
  let type ← pool.described FieldType.parse field.descriptor
  let value ←
    match ← Attribute.find InitialValue pool field.attributes with
    | none => pure none
    | some v => some <$> pool.fieldValue v.index
  pure { flags := field.flags, name, type, value }

/-- Look up a method and decode its code. -/
def MethodDeclaration.ofStored (pool : Pool) (method : StoredMethod) :
    Except ClassFault MethodDeclaration := do
  let name ← pool.memberName method.name
  let type ← pool.described MethodType.parse method.descriptor
  let instructions ←
    match ← Attribute.find Code pool method.attributes with
    | none => pure []
    | some code => Bytecode.decode code pool
  pure { flags := method.flags, name, type, instructions }

namespace ClassDeclaration

/-- Look up everything a class names. -/
def ofClassFile (c : ClassFile) : Except ClassFault ClassDeclaration := do
  let name ← checkedClassName (← c.className)
  let superclass ←
    match ← c.superClassName with
    | none => pure none
    | some text => some <$> checkedClassName text
  let interfaces ← c.interfaces.mapM fun index => do
    checkedClassName (← c.pool.className index)
  let fields ← c.fields.mapM (FieldDeclaration.ofStored c.pool)
  let methods ← c.methods.mapM (MethodDeclaration.ofStored c.pool)
  pure { flags := c.flags, name, superclass, interfaces, fields, methods }

/-- The class at the front of the bytes. -/
def parse (bs : Bytes) : Except ClassFault ClassDeclaration := do
  ofClassFile (← ClassFile.parse bs)

end ClassDeclaration

end Classdesk
