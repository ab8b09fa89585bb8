import Classdesk.Files.Path
import Classdesk.Highlight.Dialect
import Classdesk.Tools.Program

/-!
# Arguments of the command line

    print INPUT... [--class NAME]
    highlight [--dialect java|patch] FILE
    edit CLASS [--class NAME] --patch FILE --patcher PROGRAM [--decompiler PROGRAM]

Options and inputs may come in any order. An option is followed by its value, or has
it behind an equals sign; behind `--` there are only inputs.
-/

namespace Classdesk.CommandLine

/-- What the user asks for. -/
inductive Command
  | print (inputs : List Path) (className : Option String)
  | highlight (dialect : Highlight.Dialect) (file : Path)
  | edit (input : Path) (className : Option String) (patch : Path) (patcher : Tools.Program)
      (decompiler : Option Tools.Program)

/-- Arguments sorted into inputs and options. -/
structure Arguments where
  inputs : List String
  options : List (String × String)

namespace Arguments

/-- An argument such as `--name` or `--name=value`. -/
def option? (argument : String) : Option (String × Option String) :=
  match argument.toList with
  | '-' :: '-' :: name =>
    match name.dropWhile (· ≠ '=') with
    | [] => some (String.ofList name, none)
    | _ :: value => some (String.ofList (name.takeWhile (· ≠ '=')), some (String.ofList value))
  | _ => none

/-- Whether an argument can be an input or a value: only a single `-` may start it. -/
def isValue (argument : String) : Bool :=
  argument.toList.head? ≠ some '-' || argument == "-"

/-- Add an option, which must be one of the known ones and not given before. -/
def addOption (known : List String) (name value : String) (a : Arguments) : Option Arguments :=
  if known.contains name && (a.options.lookup name).isNone then
    some { a with options := (name, value) :: a.options }
  else none

/-- Sort the arguments of a command with known options. -/
def sort (known : List String) : List String → Option Arguments
  | [] => some ⟨[], []⟩
  | "--" :: rest => some ⟨rest, []⟩
  | argument :: rest =>
    match option? argument with
    | some (name, some value) => do (← sort known rest).addOption known name value
    | some (name, none) =>
      match rest with
      | value :: rest =>
        if isValue value then do (← sort known rest).addOption known name value else none
      | [] => none
    | none =>
      if isValue argument then do
        let sorted ← sort known rest
        some { sorted with inputs := argument :: sorted.inputs }
      else none

/-- The value of an option. -/
def value? (a : Arguments) (name : String) : Option String := a.options.lookup name

end Arguments

/-- The command that some arguments stand for. -/
def Command.parse? : List String → Option Command
  | "print" :: rest => do
    let a ← Arguments.sort ["class"] rest
    if a.inputs.isEmpty then none
    else some (.print (a.inputs.map Path.mk) (a.value? "class"))
  | "highlight" :: rest => do
    let a ← Arguments.sort ["dialect"] rest
    let dialect ← (Highlight.Dialect.ofName ((a.value? "dialect").getD "patch")).toOption
    match a.inputs with
    | [file] => some (.highlight dialect ⟨file⟩)
    | _ => none
  | "edit" :: rest => do
    let a ← Arguments.sort ["class", "patch", "patcher", "decompiler"] rest
    match a.inputs with
    | [input] =>
      some (.edit ⟨input⟩ (a.value? "class") ⟨← a.value? "patch"⟩ ⟨← a.value? "patcher"⟩
        ((a.value? "decompiler").map Tools.Program.mk))
    | _ => none
  | _ => none

end Classdesk.CommandLine
