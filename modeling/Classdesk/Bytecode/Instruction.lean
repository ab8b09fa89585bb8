import Classdesk.Bytecode.Opcode
import Classdesk.Format.Pool
import Classdesk.Number.Notation
import Classdesk.Text.Quoted

/-!
# Instructions

An instruction refers to places in the code by values of a type `τ`: byte offsets
while decoding, labels afterwards. Labels and line numbers are instructions that
take no bytes. Instructions that differ in their opcode only share a form.
-/

namespace Classdesk

/-- A numbered place in the code. -/
structure Label where
  number : Nat
  deriving DecidableEq, Repr

/-- A constant that an instruction can push. -/
inductive LoadableConstant
  | integer (value : Int32)
  | float (bits : UInt32)
  | long (value : Int64)
  | double (bits : UInt64)
  | string (value : String)
  | classRef (name : String)
  | methodType (descriptor : String)
  | methodHandle (kind : HandleKind) (member : MemberRef)
  | dynamic (name descriptor : String)
  deriving DecidableEq, Repr

/-- One instruction, with places of type `τ`. -/
inductive Instruction (τ : Type)
  /-- Marks a place. -/
  | label (place : τ)
  /-- The source line of what follows. -/
  | lineNumber (line : UInt16)
  /-- An opcode on its own. -/
  | simple (opcode : UInt8)
  | push (opcode : UInt8) (value : Int32)
  | newArray (element : BaseType)
  /-- A load, a store or a return through a numbered local variable. -/
  | localAccess (opcode : UInt8) (index : UInt16)
  | increment (index : UInt16) (delta : Int16)
  | jump (opcode : UInt8) (target : τ)
  | constant (opcode : UInt8) (value : LoadableConstant)
  | field (opcode : UInt8) (member : MemberRef)
  | method (opcode : UInt8) (member : MemberRef) (isInterface : Bool)
  | invokeDynamic (bootstrap : UInt16) (name descriptor : String)
  | type (opcode : UInt8) (name : String)
  | multiArray (name : String) (dimensions : UInt8)
  | tableSwitch (default : τ) (low : Int32) (targets : List τ)
  | lookupSwitch (default : τ) (pairs : List (Int32 × τ))
  deriving DecidableEq, Repr

/-- The forms of instructions. -/
inductive InstructionKind
  | label | lineNumber | simple | push | newArray | localAccess | increment | jump | constant
  | field | method | invokeDynamic | type | multiArray | tableSwitch | lookupSwitch
  deriving DecidableEq, Repr

/-- The name of a form. -/
def InstructionKind.name : InstructionKind → String
  | label => "Label"
  | lineNumber => "LineNumber"
  | simple => "Simple"
  | push => "IntPush"
  | newArray => "NewArray"
  | localAccess => "Local"
  | increment => "Increment"
  | jump => "Jump"
  | constant => "Constant"
  | field => "Field"
  | method => "Method"
  | invokeDynamic => "InvokeDynamic"
  | type => "Type"
  | multiArray => "MultiANewArray"
  | tableSwitch => "TableSwitch"
  | lookupSwitch => "LookupSwitch"

/-- A member reference as it is listed. -/
def MemberRef.text (member : MemberRef) : String :=
  s!"{member.owner} {member.name} {member.descriptor}"

/-- A constant as it is listed; the letter behind a number tells its type. -/
def LoadableConstant.text : LoadableConstant → String
  | integer value => toString value.toInt
  | float bits => floatText bits ++ "F"
  | long value => toString value.toInt ++ "L"
  | double bits => doubleText bits ++ "D"
  | string value => Text.quote value
  | classRef name => name ++ ".class"
  | methodType descriptor => descriptor
  | methodHandle kind member => s!"{kind.name} {member.text}"
  | dynamic name descriptor => s!"{name} {descriptor}"

namespace Instruction

variable {τ σ : Type}

/-- The form of an instruction. -/
def kind : Instruction τ → InstructionKind
  | label _ => .label
  | lineNumber _ => .lineNumber
  | simple _ => .simple
  | push .. => .push
  | newArray _ => .newArray
  | localAccess .. => .localAccess
  | increment .. => .increment
  | jump .. => .jump
  | constant .. => .constant
  | field .. => .field
  | method .. => .method
  | invokeDynamic .. => .invokeDynamic
  | type .. => .type
  | multiArray .. => .multiArray
  | tableSwitch .. => .tableSwitch
  | lookupSwitch .. => .lookupSwitch

/-- The opcode of an instruction; `FF` for those that take no bytes. -/
def opcode : Instruction τ → UInt8
  | label _ | lineNumber _ => 0xFF
  | simple opcode | push opcode _ | localAccess opcode _ | jump opcode _ | constant opcode _
  | field opcode _ | method opcode _ _ | type opcode _ => opcode
  | newArray _ => 0xBC
  | increment .. => 0x84
  | invokeDynamic .. => 0xBA
  | multiArray .. => 0xC5
  | tableSwitch .. => 0xAA
  | lookupSwitch .. => 0xAB

/-- The mnemonic of an instruction, if it has one. -/
def mnemonic? : Instruction τ → Option String
  | label _ => some Opcode.labelMnemonic
  | i => Opcode.mnemonic? i.opcode

/-- The places an instruction marks or leads to; the default of a switch first. -/
def places : Instruction τ → List τ
  | label place => [place]
  | jump _ target => [target]
  | tableSwitch default _ targets => default :: targets
  | lookupSwitch default pairs => default :: pairs.map Prod.snd
  | _ => []

/-- The instruction with every place replaced. -/
def mapPlaces (f : τ → σ) : Instruction τ → Instruction σ
  | label place => label (f place)
  | lineNumber line => lineNumber line
  | simple opcode => simple opcode
  | push opcode value => push opcode value
  | newArray element => newArray element
  | localAccess opcode index => localAccess opcode index
  | increment index delta => increment index delta
  | jump opcode target => jump opcode (f target)
  | constant opcode value => constant opcode value
  | field opcode member => field opcode member
  | method opcode member isInterface => method opcode member isInterface
  | invokeDynamic bootstrap name descriptor => invokeDynamic bootstrap name descriptor
  | type opcode name => type opcode name
  | multiArray name dimensions => multiArray name dimensions
  | tableSwitch default low targets => tableSwitch (f default) low (targets.map f)
  | lookupSwitch default pairs =>
    lookupSwitch (f default) (pairs.map fun (key, target) => (key, f target))

/-- Replacing places replaces exactly the places that are listed. -/
theorem places_mapPlaces (f : τ → σ) (i : Instruction τ) :
    (i.mapPlaces f).places = i.places.map f := by
  cases i <;> simp [mapPlaces, places, Function.comp_def]

end Instruction

end Classdesk
