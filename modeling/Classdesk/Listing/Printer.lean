import Classdesk.Declaration
import Classdesk.Listing.Formatter
import Classdesk.Listing.Indenter

/-!
# Listings of classes

A class is listed as a header line, its fields, its methods and a closing brace,
with an empty line between members. A method has one line for each instruction
that has a text. Parameters have no names of their own and are called `a`, `b`,
`c` and so on, so a method with more than 26 of them cannot be listed.

The listing is first laid out as a `Script`, a list of output steps, and then run
against a sink. A script may hold a fault, where the run stops.
-/

namespace Classdesk.Listing

/-- Why a listing could not be completed. -/
inductive PrintFault
  | tooManyParameters (method : String) (count : Nat)
  /-- The sink refused a text. -/
  | sinkFailed
  deriving DecidableEq, Repr

/-- The names of parameters. -/
def parameterNames : List Char := "abcdefghijklmnopqrstuvwxyz".toList

/-- The wording of a fault. -/
def PrintFault.message : PrintFault → String
  | tooManyParameters method count =>
    s!"Method {method} has {count} parameters (at most 26 can be printed)"
  | sinkFailed => "Failed to write output"

/-- Output steps, and faults where output cannot go on. -/
abbrev Script := List (Except PrintFault Op)

namespace Script

/-- A script of texts. -/
def texts (pieces : List String) : Script := pieces.map fun s => .ok (.text s)

/-- A script of one text and the end of its line. -/
def line (s : String) : Script := [.ok (.text s), .ok .newline]

/-- Run a script against an indenter, up to the first fault or refusal. -/
def run {σ : Type} [Sink σ] : Script → Indenter σ → Except PrintFault Unit × Indenter σ
  | [], out => (.ok (), out)
  | .error fault :: _, out => (.error fault, out)
  | .ok op :: script, out =>
    match Indenter.apply op out with
    | (some (), out) => run script out
    | (none, out) => (.error .sinkFailed, out)

end Script

/-- The modifiers in front of a declaration. -/
def modifiers (bits : UInt16) (excluded : List Modifier) : Script :=
  (Modifier.ofBits bits excluded).flatMap fun m => Script.texts [m.keyword, " "]

/-- Two scripts for every element, the first without separator. -/
def separated (separator : Script) : List Script → Script
  | [] => []
  | first :: others => first ++ others.flatMap fun script => separator ++ script

/-- The line of a class name and what it extends and implements. -/
def header (c : ClassDeclaration) : Script :=
  let extended :=
    match c.superclass with
    | some superclass => if superclass.isObject then [] else [" extends ", superclass.text]
    | none => []
  let implemented :=
    c.interfaces.zipIdx.flatMap fun (interface, i) =>
      [if i = 0 then " implements " else ", ", interface.text]
  -- on classes the bit of `synchronized` has another meaning
  modifiers c.flags.bits [.synchronized] ++
    Script.texts (["class ", c.name.text] ++ extended ++ implemented) ++ Script.line " \x7b"

/-- The line of a field. -/
def field (f : FieldDeclaration) : Script :=
  let value :=
    match f.value with
    | some value => " = " ++ value.text
    | none => ""
  modifiers f.flags.bits [] ++
    Script.line (Text.onOneLine (f.type.javaName ++ " " ++ f.name.text ++ value ++ ";"))

/-- The parameters of a method with their names. -/
def parameters (types : List FieldType) : Script :=
  separated (Script.texts [", "]) <|
    (types.zip parameterNames).map fun (type, name) =>
      Script.texts [type.javaName, " ", String.singleton name]

/-- The lines of a method. -/
def method (formatter : Formatter) (m : MethodDeclaration) : Script :=
  if m.type.parameters.length > parameterNames.length then
    [.error (.tooManyParameters m.name.text m.type.parameters.length)]
  else
    modifiers m.flags.bits [] ++
      Script.texts [m.type.javaResult, " ", m.name.text, "("] ++
      parameters m.type.parameters ++ Script.line ") \x7b" ++ [.ok .indent] ++
      (m.instructions.filterMap formatter.text).flatMap (fun text =>
        Script.texts ["."] ++ Script.line (Text.onOneLine text)) ++
      [.ok .unindent] ++ Script.line "\x7d"

/-- How classes are listed. -/
structure Printer where
  formatter : Formatter
  /-- The text of one level of indentation. -/
  indent : String

namespace Printer

/-- All instructions with their operands, indented by two spaces. -/
def standard : Printer := ⟨.standard, "  "⟩

/-- The steps of a whole listing. -/
def script (printer : Printer) (c : ClassDeclaration) : Script :=
  header c ++ [.ok .indent] ++
    separated [.ok .newline]
      (c.fields.map field ++ c.methods.map (method printer.formatter)) ++
    [.ok .unindent] ++ Script.line "\x7d"

/-- The listing of a class. -/
def print (printer : Printer) (c : ClassDeclaration) : Except PrintFault String :=
  match (printer.script c).run (Indenter.ofSink printer.indent "") with
  | (.ok (), out) => .ok out.sink
  | (.error fault, _) => .error fault

end Printer

end Classdesk.Listing
