import Classdesk.Editor.ClassSource
import Classdesk.Highlight.Dialect
import Classdesk.Highlight.Highlighter
import Classdesk.Text.ByteOffset
import Classdesk.Text.Utf8

/-!
# Editing sessions

A session holds the bytes of one class and the text of a patch for it. Recomputing
applies the patch to those bytes, never to the output of an earlier patch, and then
lists and decompiles the result. Every step does all that can fail before it changes
anything, so the last good output stays on display.

The patch counts as saved while the file it is associated with holds exactly its
text, or while it is empty and there is no such file.
-/

namespace Classdesk.Editor

/-- What applies patches: the patched class, from the class as it was and the text of
the patch. -/
abbrev Patcher := Bytes → String → Except PatchFailure Bytes

/-- What turns classes back into source. -/
abbrev Decompiler := Bytes → Except DecompileFailure String

/-- The patcher that leaves every class as it is. -/
def Patcher.identity : Patcher := fun bytes _ => .ok bytes

/-- What a session works with. -/
structure Workbench where
  patcher : Patcher
  decompiler : Option Decompiler
  printer : Listing.Printer

/-- What is shown for a class. -/
structure Display where
  bytecode : String
  /-- The decompiled source, if there is a decompiler. -/
  source : Option String
  deriving DecidableEq, Repr

/-- List a class and decompile it. -/
def Workbench.display (bench : Workbench) (bytes : Bytes) : Except EditFault Display := do
  let declaration ← (ClassDeclaration.parse bytes).mapError .classFile
  let bytecode ← (bench.printer.print declaration).mapError .listing
  let source ← bench.decompiler.mapM fun decompile => (decompile bytes).mapError .decompile
  pure { bytecode, source }

/-- The white space that a line starts with, to be repeated on the line after it. Line
ends behind the line do not count. -/
def continuationIndent (line : List Char) : List Char :=
  let body := (line.reverse.dropWhile fun c => c == '\n' || c == '\r').reverse
  body.takeWhile Text.isWhite

/-- The part of a text behind its last line break. -/
def lastLine (text : List Char) : List Char :=
  (text.reverse.takeWhile (· ≠ '\n')).reverse

/-- One class being patched. -/
structure Session where
  bench : Workbench
  /-- The bytes of the class as it was. -/
  classBytes : Bytes
  classPath : Option Path
  patchPath : Option Path
  patchText : String
  saved : Bool
  /-- What the last recomputation that succeeded gave. -/
  shown : Display

namespace Session

/-- The quiet time after an edit before the patch is applied again. -/
def patchDelayMillis : Nat := 2000

/-- Start a session on the bytes of a class, which is displayed right away. -/
def ofBytes (bench : Workbench) (bytes : Bytes) : Except EditFault Session := do
  let shown ← bench.display bytes
  pure {
    bench, classBytes := bytes, classPath := none, patchPath := none, patchText := ""
    saved := true
    shown }

/-- Start a session on a class from a file or a jar. -/
def ofSource (bench : Workbench) (files : FileTree) (source : ClassSource) :
    Except EditFault Session := do
  let s ← ofBytes bench (← source.read files)
  pure { s with classPath := some source.displayPath }

/-! ## Edits -/

/-- Replace the patch by a text. -/
def setText (text : String) (s : Session) : Session :=
  if text = s.patchText then s else { s with patchText := text, saved := false }

/-- Break the line of the patch at a byte offset, with the indentation of the line
carried over. The offset goes back to the end of a character. The second part is the
offset behind what was inserted. -/
def breakLine (offset : Nat) (s : Session) : Session × Nat :=
  let text := s.patchText.toList
  let front := Text.frontWithin offset text
  let inserted := '\n' :: continuationIndent (lastLine front)
  let text := front ++ inserted ++ text.drop front.length
  (s.setText (String.ofList text), Text.byteLength front + Text.byteLength inserted)

/-! ## Views -/

/-- The title of the window: a star for unsaved changes, then the paths of the patch and
the class as far as they have any. -/
def title (s : Session) : String :=
  let star := if s.saved then "" else "* "
  let paths := [s.patchPath, s.classPath].filterMap id
  star ++ "PTE" ++ String.join (paths.map fun p => " - " ++ p.text)

/-- What a fresh highlighter for patches shows for the text of this patch. -/
def highlighted (s : Session) : List Highlight.SinkCall :=
  Highlight.State.callsAfter Highlight.Dialect.patch.patterns.resolver s.patchText

end Session

/-! ## Steps -/

/-- A session and the files it works with. -/
structure Desk where
  session : Session
  files : FileTree

/-- Something that is done at a desk and may fail. The desk is changed in place: what was
changed before a fault stays changed. -/
abbrev Step := ExceptT EditFault (StateM Desk)

namespace Step

/-- Change the session. -/
def edit (change : Session → Session) : Step Unit :=
  modify fun d => { d with session := change d.session }

/-- Go on with a result, or report why there is none. -/
def attempt {ε α : Type} (result : Except ε α) (report : ε → EditFault) : Step α :=
  match result with
  | .ok a => pure a
  | .error fault => throw (report fault)

/-- What is done at a desk, and the desk behind it, also after a fault. -/
def runAt {α : Type} (step : Step α) (d : Desk) : Except EditFault α × Desk :=
  Id.run (step.run.run d)

end Step

namespace Desk

/-- Replace the patch by the text of a file, which it is associated with from then on. -/
def load (path : Path) : Step Unit := do
  let content ← .attempt ((← get).files.contentAt path) fun fault => .access (.file fault)
  match Text.Utf8.decode? content with
  | none => throw (.access .notText)
  | some text =>
    .edit ({ · with patchText := text })
    .edit ({ · with patchPath := some path })
    .edit ({ · with saved := true })

/-- Write the patch to a file, which it is associated with from then on. -/
def saveAs (path : Path) : Step Unit := do
  let d ← get
  let files ← .attempt (d.files.store path (Text.Utf8.encode d.session.patchText))
    fun fault => .access (.file fault)
  modify ({ · with files })
  .edit ({ · with patchPath := some path })
  .edit ({ · with saved := true })

/-- Write the patch to the file it is associated with. -/
def save : Step Unit := do
  match (← get).session.patchPath with
  | some path => saveAs path
  | none => throw .noPatchPath

/-- Apply the patch to the class as it was and display the result. -/
def recompute : Step Display := do
  let s := (← get).session
  let patched ← .attempt (s.bench.patcher s.classBytes s.patchText) .patch
  let shown ← .attempt (s.bench.display patched) id
  .edit ({ · with shown })
  return shown

end Desk

/-! ## Runs -/

/-- What a user can do in a session. -/
inductive Action
  | setText (text : String)
  | breakLine (offset : Nat)
  | load (path : Path)
  | save
  | saveAs (path : Path)
  | recompute

/-- What a step answers. -/
inductive Answer
  | done
  | caret (offset : Nat)
  | shown (display : Display)

namespace Desk

/-- The step that an action asks for. -/
def step : Action → Step Answer
  | .setText text => do
    .edit (·.setText text)
    return .done
  | .breakLine offset => do
    let (session, caret) := (← get).session.breakLine offset
    .edit fun _ => session
    return .caret caret
  | .load path => do
    load path
    return .done
  | .save => do
    save
    return .done
  | .saveAs path => do
    saveAs path
    return .done
  | .recompute => return .shown (← recompute)

/-- Do what an action asks for. -/
def perform (d : Desk) (action : Action) : Except EditFault Answer × Desk :=
  (step action).runAt d

/-- Do what some actions ask for, one after another, whether or not they fail. -/
def run (d : Desk) (actions : List Action) : Desk :=
  actions.foldl (fun d action => (d.perform action).2) d

end Desk

end Classdesk.Editor
