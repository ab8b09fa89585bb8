import Classdesk.CommandLine.Arguments
import Classdesk.CommandLine.Colour
import Classdesk.Editor.Session

/-!
# Carrying out commands

A command is a function of the files and settings it is run with; its outcome is what it
writes and the code it ends with.

Printing goes on when a class cannot be printed: the class is reported and its listing
left out, and the command fails in the end. Every listing but that of the first source
has an empty line in front, also when the sources before it have failed.
-/

namespace Classdesk.CommandLine

/-- What commands depend on beside their arguments. -/
structure Environment where
  home : Path
  /-- Whether the terminal shows colours. -/
  styled : Bool
  files : FileTree
  /-- How patchers and decompilers are run. -/
  launch : Tools.Launcher

/-- Whether a terminal of some kind shows colours. -/
def showsColours (terminal : Option String) : Bool :=
  match terminal with
  | some kind => kind ≠ "dumb"
  | none => false

/-- What a command leaves behind. -/
structure Outcome where
  exit : Nat
  output : String
  errors : String
  deriving DecidableEq, Repr

namespace Outcome

/-- A command that succeeded. -/
def success (output : String) : Outcome := ⟨0, output, ""⟩

/-- A command that failed with a message and wrote nothing. -/
def failure (message : String) : Outcome := ⟨1, "", message ++ "\n"⟩

/-- The outcome of a command that succeeds with its output or fails with a message. -/
def ofResult : Except String String → Outcome
  | .ok output => success output
  | .error message => failure message

end Outcome

/-! ## Printing -/

/-- The classes that an input stands for: those of a jar or one of them, a file, or the
class files of a directory. -/
def sourcesOf (env : Environment) (className : Option String) (input : Path) :
    Except String (List Editor.ClassSource) :=
  let input := input.expandHome env.home
  if input.isJar then
    match className with
    | some name => .ok [.inJar env.home input name]
    | none => (Editor.classesInJar env.home env.files input).mapError fun fault =>
        s!"{input.text}: {fault.message}"
  else if env.files.isFile input then .ok [.file input]
  else .ok ((env.files.filesBelow input "class").map .file)

/-- The listing of a source, or why there is none. -/
def listingOf (env : Environment) (source : Editor.ClassSource) : Except String String := do
  let bytes ← (source.read env.files).mapError Editor.EditFault.message
  let declaration ← (ClassDeclaration.parse bytes).mapError ClassFault.message
  (Listing.Printer.standard.print declaration).mapError Listing.PrintFault.message

/-- A source that was to be printed: the path shown for it, and its listing or why there
is none. -/
structure Printed where
  path : String
  result : Except String String

/-- What is written for the source at a place among several or as the only one. -/
def Printed.output (several : Bool) (place : Nat) (p : Printed) : String :=
  match p.result with
  | .ok listing =>
    (if place > 0 then "\n" else "") ++ (if several then s!"// {p.path}\n" else "") ++ listing
  | .error _ => ""

/-- The error that is reported for a source. -/
def Printed.error? (p : Printed) : Option String :=
  match p.result with
  | .ok _ => none
  | .error message => some s!"{p.path}: {message}\n"

/-- The outcome of printing some sources. -/
def printAll (sources : List Printed) : Outcome :=
  let several := sources.length > 1
  let errors := sources.filterMap Printed.error?
  let summary :=
    if errors.isEmpty then "" else s!"{errors.length} input(s) could not be printed\n"
  { exit := if errors.isEmpty then 0 else 1
    output := String.join (sources.zipIdx.map fun (p, place) => p.output several place)
    errors := String.join errors ++ summary }

/-- Print the classes of some inputs. -/
def print (env : Environment) (inputs : List Path) (className : Option String) : Outcome :=
  match inputs.mapM (sourcesOf env className) with
  | .error message => .failure message
  | .ok sources =>
    printAll (sources.flatten.map fun source =>
      ⟨source.displayPath.text, listingOf env source⟩)

/-! ## Highlighting -/

/-- The text of a file. -/
def textOf (env : Environment) (file : Path) : Except Editor.AccessFault String := do
  let content ← (env.files.contentAt (file.expandHome env.home)).mapError .file
  match Text.Utf8.decode? content with
  | some text => pure text
  | none => throw .notText

/-- Write a file with colours. -/
def highlight (env : Environment) (dialect : Highlight.Dialect) (file : Path) : Outcome :=
  match textOf env file with
  | .error fault => .failure s!"I/O error: {fault.message}"
  | .ok text =>
    match (Highlight.State.callsAfter dialect.patterns.resolver text).head? with
    | some ⟨_, .ok spans⟩ => .success (coloured env.styled spans text)
    | some ⟨_, .error fault⟩ => .failure fault.message
    | none => .failure "Timed out waiting for highlighting"

/-! ## Editing -/

/-- Apply a patch to a class. -/
def edited (env : Environment) (input : Path) (className : Option String) (patch : Path)
    (patcher : Tools.Program) (decompiler : Option Tools.Program) :
    Except Editor.EditFault Editor.Display := do
  let bench : Editor.Workbench := {
    patcher := patcher.patcher env.launch env.files
    decompiler := decompiler.map fun program => program.decompiler env.launch env.files
    printer := Listing.Printer.standard }
  let s ← Editor.Session.ofSource bench env.files (.ofInput env.home input className)
  let step : Editor.Step Editor.Display := do
    Editor.Desk.load (patch.expandHome env.home)
    Editor.Desk.recompute
  (step.runAt ⟨s, env.files⟩).1

/-- Write what a session shows: the listing, and behind an empty line the source. -/
def displayed (d : Editor.Display) : String :=
  match d.source with
  | some source => d.bytecode ++ "\n" ++ source
  | none => d.bytecode

/-- Carry out a command. -/
def execute (env : Environment) : Command → Outcome
  | .print inputs className => print env inputs className
  | .highlight dialect file => highlight env dialect file
  | .edit input className patch patcher decompiler =>
    .ofResult (((edited env input className patch patcher decompiler).map displayed).mapError
      Editor.EditFault.message)

/-- What is written for arguments that are no command. -/
def usage : String :=
  "usage: print INPUT... [--class NAME]
       highlight [--dialect java|patch] FILE
       edit CLASS [--class NAME] --patch FILE --patcher PROGRAM [--decompiler PROGRAM]
"

/-- Carry out what some arguments stand for. -/
def run (env : Environment) (arguments : List String) : Outcome :=
  match Command.parse? arguments with
  | some command => execute env command
  | none => ⟨2, "", usage⟩

end Classdesk.CommandLine
