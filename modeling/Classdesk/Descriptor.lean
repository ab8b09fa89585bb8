import Classdesk.Name

/-!
# Field and method descriptors

A descriptor spells a type: `B C D F I J S Z` for base types, `Lname;` for a
class, one `[` per array dimension in front of the element, and
`(parameters)result` for a method, with `V` for no result. Parsers take
characters off the front of a list and return the rest.
-/

namespace Classdesk

/-- Why a text is not a descriptor. -/
inductive DescriptorFault
  | leftover (c : Char)
  | notBase (c : Char)
  | missingBase
  | notObject
  | missingTerminator (name : String)
  | badName (fault : NameFault)
  | notReference (c : Char)
  | missingType
  | missingOpen
  | missingClose
  deriving DecidableEq, Repr

namespace DescriptorFault

/-- The wording of a fault. -/
def message : DescriptorFault → String
  | leftover c => s!"Unexpected leftover input '{c}'"
  | notBase c => s!"Invalid base type character '{c}'"
  | missingBase => "Missing base type character"
  | notObject => "Expected object type to start with `L`"
  | missingTerminator name => s!"Missing terminator for 'L{name}'"
  | badName fault => fault.message
  | notReference c => s!"Invalid reference type character '{c}'"
  | missingType => "Missing field type"
  | missingOpen => "Expected '(' for method"
  | missingClose => "Expected ')' for method"

/-- Whether the descriptor ended too early. -/
def isTruncation : DescriptorFault → Bool
  | missingBase | missingTerminator _ | missingType => true
  | _ => false

end DescriptorFault

/-- Types of primitive values. -/
inductive BaseType
  | byte | char | double | float | int | long | short | boolean
  deriving DecidableEq, Repr

namespace BaseType

/-- The letter of a base type. -/
def letter : BaseType → Char
  | byte => 'B'
  | char => 'C'
  | double => 'D'
  | float => 'F'
  | int => 'I'
  | long => 'J'
  | short => 'S'
  | boolean => 'Z'

/-- The base type with this letter. -/
def ofLetter? : Char → Option BaseType
  | 'B' => some byte
  | 'C' => some char
  | 'D' => some double
  | 'F' => some float
  | 'I' => some int
  | 'J' => some long
  | 'S' => some short
  | 'Z' => some boolean
  | _ => none

/-- The base type with this code in a `newarray` instruction. -/
def ofArrayCode? (code : UInt8) : Option BaseType :=
  match code.toNat with
  | 4 => some boolean
  | 5 => some char
  | 6 => some float
  | 7 => some double
  | 8 => some byte
  | 9 => some short
  | 10 => some int
  | 11 => some long
  | _ => none

/-- The keyword of a base type. -/
def javaName : BaseType → String
  | byte => "byte"
  | char => "char"
  | double => "double"
  | float => "float"
  | int => "int"
  | long => "long"
  | short => "short"
  | boolean => "boolean"

@[simp] theorem ofLetter?_letter (b : BaseType) : ofLetter? b.letter = some b := by
  cases b <;> rfl

end BaseType

/-- What an array holds once all its dimensions are indexed. -/
inductive ElementType
  | base (type : BaseType)
  | object (name : ClassName)
  deriving DecidableEq

/-- Classes and arrays. An array has one dimension more than `extra`. -/
inductive RefType
  | object (name : ClassName)
  | array (element : ElementType) (extra : Nat)
  deriving DecidableEq

/-- Types of fields, parameters and results. -/
inductive FieldType
  | base (type : BaseType)
  | ref (type : RefType)
  deriving DecidableEq

/-- The parameters and the result of a method, `none` for no result. -/
structure MethodType where
  parameters : List FieldType
  result : Option FieldType
  deriving DecidableEq

/-! ## Source spelling -/

/-- The spelling of an element type in source code. -/
def ElementType.javaName : ElementType → String
  | base type => type.javaName
  | object name => name.javaName

/-- The spelling of a class or array type in source code. -/
def RefType.javaName : RefType → String
  | object name => name.javaName
  | array element extra => element.javaName ++ String.join (List.replicate (extra + 1) "[]")

/-- The spelling of a type in source code. -/
def FieldType.javaName : FieldType → String
  | base type => type.javaName
  | ref type => type.javaName

/-- The spelling of the result type in source code. -/
def MethodType.javaResult (type : MethodType) : String :=
  match type.result with
  | none => "void"
  | some result => result.javaName

/-! ## Parsing -/

/-- Taking an `α` off the front of some characters. -/
abbrev DescriptorParser (α : Type) := StateT (List Char) (Except DescriptorFault) α

/-- Parse a base type. -/
def BaseType.parse : DescriptorParser BaseType
  | [] => .error .missingBase
  | c :: cs =>
    match BaseType.ofLetter? c with
    | some type => .ok (type, cs)
    | none => .error (.notBase c)

/-- Parse a class name up to its `;`, after the `L`. -/
def ClassName.parseBody : DescriptorParser ClassName := fun cs =>
  let name := String.ofList (cs.takeWhile (· != ';'))
  match cs.dropWhile (· != ';') with
  | [] => .error (.missingTerminator name)
  | _ :: rest =>
    match ClassName.ofString name with
    | .ok name => .ok (name, rest)
    | .error fault => .error (.badName fault)

/-- Parse a class type `Lname;`. -/
def ClassName.parse : DescriptorParser ClassName
  | 'L' :: cs => ClassName.parseBody cs
  | _ => .error .notObject

/-- Parse what stands behind the `[`s of an array type. -/
def ElementType.parse : DescriptorParser ElementType
  | 'L' :: cs => do
    let (name, rest) ← ClassName.parseBody cs
    .ok (.object name, rest)
  | cs => do
    let (type, rest) ← BaseType.parse cs
    .ok (.base type, rest)

/-- Parse a class or array type. -/
def RefType.parse : DescriptorParser RefType
  | [] => .error .missingType
  | 'L' :: cs => do
    let (name, rest) ← ClassName.parseBody cs
    .ok (.object name, rest)
  | '[' :: cs => do
    let extra := (cs.takeWhile (· == '[')).length
    let (element, rest) ← ElementType.parse (cs.dropWhile (· == '['))
    .ok (.array element extra, rest)
  | c :: _ => .error (.notReference c)

/-- Parse any type of a field. -/
def FieldType.parse : DescriptorParser FieldType
  | [] => .error .missingType
  | c :: cs =>
    match BaseType.ofLetter? c with
    | some type => .ok (.base type, cs)
    | none => do
      let (type, rest) ← RefType.parse (c :: cs)
      .ok (.ref type, rest)

/-- Parse types up to the closing parenthesis, which is taken off too. Every type
takes a character, so `fuel` beyond the length of the input changes nothing. -/
def FieldType.parseParameters : (fuel : Nat) → DescriptorParser (List FieldType)
  | _, ')' :: cs => .ok ([], cs)
  | 0, _ => .error .missingClose
  | fuel + 1, cs => do
    let (type, rest) ← FieldType.parse cs
    let (types, rest) ← FieldType.parseParameters fuel rest
    .ok (type :: types, rest)

/-- Parse a method descriptor. -/
def MethodType.parse : DescriptorParser MethodType
  | '(' :: cs => do
    let (parameters, rest) ← FieldType.parseParameters (cs.length + 1) cs
    match rest with
    | 'V' :: rest => .ok ({ parameters, result := none }, rest)
    | rest => do
      let (result, rest) ← FieldType.parse rest
      .ok ({ parameters, result := some result }, rest)
  | _ => .error .missingOpen

/-- Run a parser over a whole text; nothing may be left over. -/
def DescriptorParser.run {α : Type} (parser : DescriptorParser α) (text : String) :
    Except DescriptorFault α :=
  match parser text.toList with
  | .ok (a, []) => .ok a
  | .ok (_, c :: _) => .error (.leftover c)
  | .error fault => .error fault

end Classdesk
