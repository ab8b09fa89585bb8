import Classdesk.Bytecode.Instruction

/-!
# Instructions as text

A `Formatter` says for each form of instruction how it is written, or has no
entry for it. Where it has none, or its entry declines, a listing shows the bare
mnemonic; an instruction without mnemonic is not listed.
-/

namespace Classdesk

/-- A label as it is listed. -/
def Label.text (label : Label) : String := s!"L{label.number}"

/-- The mnemonic and the operands of an instruction. Line numbers and
instructions without operands are left to others. -/
def Instruction.withOperands (i : Instruction Label) : Option String := do
  let mnemonic ← i.mnemonic?
  match i with
  | .label place => some s!"{mnemonic} {place.text}"
  | .lineNumber _ | .simple _ => none
  | .push _ value => some s!"{mnemonic} {value.toInt}"
  | .newArray element => some s!"{mnemonic} {element.javaName}"
  | .localAccess _ index => some s!"{mnemonic} {index}"
  | .increment index delta => some s!"{mnemonic} {index} {delta.toInt}"
  | .jump _ target => some s!"{mnemonic} {target.text}"
  | .constant _ value => some s!"{mnemonic} {value.text}"
  | .field _ member | .method _ member _ => some s!"{mnemonic} {member.text}"
  | .invokeDynamic bootstrap name descriptor =>
    some s!"{mnemonic} <{bootstrap}> {name} {descriptor}"
  | .type _ name => some s!"{mnemonic} {name}"
  | .multiArray name dimensions => some s!"{mnemonic} {name} {dimensions}"
  | .tableSwitch default low targets =>
    let entries := String.join (targets.map fun target => " " ++ target.text)
    some s!"{mnemonic} {low.toInt}{entries} default {default.text}"
  | .lookupSwitch default pairs =>
    let entries := String.join (pairs.map fun (key, target) => s!" {key.toInt}:{target.text}")
    some s!"{mnemonic}{entries} default {default.text}"

namespace Listing

/-- How each form of instruction is written. -/
structure Formatter where
  /-- The entry of a form; the entry may decline an instruction. -/
  entry : InstructionKind → Option (Instruction Label → Option String)

namespace Formatter

/-- No entries at all. -/
def empty : Formatter := ⟨fun _ => none⟩

/-- Entries for all forms with operands, and for labels. -/
def standard : Formatter :=
  ⟨fun
    | .simple | .lineNumber => none
    | _ => some Instruction.withOperands⟩

/-- Whether a form has an entry. -/
def contains (f : Formatter) (kind : InstructionKind) : Bool := (f.entry kind).isSome

/-- Set the entry of a form. -/
def insert (f : Formatter) (kind : InstructionKind)
    (format : Instruction Label → Option String) : Formatter :=
  ⟨fun k => if k = kind then some format else f.entry k⟩

/-- Drop the entry of a form. -/
def erase (f : Formatter) (kind : InstructionKind) : Formatter :=
  ⟨fun k => if k = kind then none else f.entry k⟩

/-- What the entry of an instruction's form makes of it. -/
def format (f : Formatter) (i : Instruction Label) : Option String := do
  let entry ← f.entry i.kind
  entry i

/-- The text of an instruction in a listing, or `none` if it is not listed. -/
def text (f : Formatter) (i : Instruction Label) : Option String :=
  f.format i <|> Opcode.mnemonic? i.opcode

end Formatter

end Listing

end Classdesk
