import Classdesk.Format.Pool

/-!
# Attributes

An attribute is a named block of bytes attached to a class, a member or code.
`AttributeBody` gives the meaning of a block by its name; the bodies known here
are the initial value of a field, the code of a method and its line numbers.
-/

namespace Classdesk

/-- A named block of bytes. -/
structure Attribute where
  name : ConstIndex
  info : Bytes
  deriving DecidableEq, Repr

instance : Codec Attribute where
  read := do
    let name ← Codec.read
    let info ← Codec.readSizedBlock
    pure { name, info }
  write a := .ok (Bytes.ofNat 2 a.name.toNat ++ Codec.writeSizedBlock a.info)

/-- Types that are stored as the body of an attribute. -/
class AttributeBody (α : Type) extends Codec α where
  /-- The name of attributes with such a body. -/
  name : String

namespace Attribute

/-- The body of the first attribute with the name that `α` goes by. The names of
the attributes before it must be in the pool. -/
def find (α : Type) [AttributeBody α] (pool : Pool) :
    List Attribute → Except ClassFault (Option α)
  | [] => .ok none
  | a :: as => do
    let name ← pool.text a.name
    if name = AttributeBody.name α then
      match Codec.read a.info with
      | .ok (body, _) => .ok (some body)
      | .error fault => .error (.stream fault)
    else find α pool as

end Attribute

/-- Make an attribute out of a body, its name inserted into the pool. -/
def Pool.internAttribute {α : Type} [AttributeBody α] (body : α) : PoolM Attribute := do
  let name ← internText (AttributeBody.name α)
  match Codec.write body with
  | .ok info => pure { name, info }
  | .error fault => throw (.stream fault)

/-- The initial value of a field. -/
structure InitialValue where
  index : ConstIndex
  deriving DecidableEq, Repr

instance : AttributeBody InitialValue where
  name := "ConstantValue"
  read := InitialValue.mk <$> Codec.read
  write v := Codec.write v.index

/-- A range of code with the place where its exceptions are handled. -/
structure Handler where
  start : UInt16
  stop : UInt16
  target : UInt16
  caught : ConstIndex
  deriving DecidableEq, Repr

instance : Codec Handler where
  read := Handler.mk <$> Codec.read <*> Codec.read <*> Codec.read <*> Codec.read
  write h := .ok (Bytes.ofNat 2 h.start.toNat ++ (Bytes.ofNat 2 h.stop.toNat ++
    (Bytes.ofNat 2 h.target.toNat ++ Bytes.ofNat 2 h.caught.toNat)))

/-- The source line of the code from an offset on. -/
structure LineEntry where
  start : UInt16
  line : UInt16
  deriving DecidableEq, Repr

instance : Codec LineEntry where
  read := LineEntry.mk <$> Codec.read <*> Codec.read
  write e := .ok (Bytes.ofNat 2 e.start.toNat ++ Bytes.ofNat 2 e.line.toNat)

/-- The source lines of a method. -/
structure LineTable where
  entries : List LineEntry
  deriving DecidableEq, Repr

instance : AttributeBody LineTable where
  name := "LineNumberTable"
  read := LineTable.mk <$> Codec.read
  write t := Codec.write t.entries

/-- The code of a method. -/
structure Code where
  maxStack : UInt16
  maxLocals : UInt16
  code : Bytes
  handlers : List Handler
  attributes : List Attribute
  deriving DecidableEq, Repr

instance : AttributeBody Code where
  name := "Code"
  read := do
    let maxStack ← Codec.read
    let maxLocals ← Codec.read
    let code ← Codec.readSizedBlock
    let handlers ← Codec.read
    let attributes ← Codec.read
    pure { maxStack, maxLocals, code, handlers, attributes }
  write c := do
    let handlers ← Codec.write c.handlers
    let attributes ← Codec.write c.attributes
    pure (Bytes.ofNat 2 c.maxStack.toNat ++ (Bytes.ofNat 2 c.maxLocals.toNat ++
      (Codec.writeSizedBlock c.code ++ (handlers ++ attributes))))

end Classdesk
