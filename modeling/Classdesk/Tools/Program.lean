import Classdesk.Editor.Session
import Classdesk.Tools.Run

/-!
# Programs as patchers and decompilers

A program takes the class, and for patching the text of the patch, as files. What it
writes is the patched class or the decompiled source. What programs there are and what
they do is not known here: they are run by a `Launcher`.
-/

namespace Classdesk.Tools

/-- The name of a program. -/
structure Program where
  name : String
  deriving DecidableEq, Repr

/-- How programs are run: with the files they can see and some arguments. -/
def Launcher := Program → FileTree → List String → Except FileFault Run

/-- A file of its own for a program to work on, and where it is. -/
def scratch (name : String) (content : Bytes) (files : FileTree) : FileTree × String :=
  (files.addFile ["tmp", name] content false, s!"/tmp/{name}")

namespace Program

/-- Why a program could not be run. -/
def notRun (p : Program) (fault : FileFault) : String :=
  s!"Could not run {p.name}: {fault.message}"

/-- The patcher that runs a program with a class file and a patch file. -/
def patcher (launch : Launcher) (files : FileTree) (p : Program) : Editor.Patcher :=
  fun bytes patch =>
    let (files, classFile) := scratch "scratch.class" bytes files
    let (files, patchFile) := scratch "scratch.patch" (Text.Utf8.encode patch) files
    match launch p files [classFile, patchFile] with
    | .error fault => .error ⟨p.notRun fault, ""⟩
    | .ok run =>
      let diagnostics := Text.Utf8.decodeLossy run.diagnostics
      if !run.status.isSuccess then
        .error ⟨s!"Patcher exited with {run.status.text}", diagnostics⟩
      else if run.output.isEmpty then .error ⟨"Patcher produced no class", diagnostics⟩
      else .ok run.output

/-- The decompiler that runs a program with a class file. -/
def decompiler (launch : Launcher) (files : FileTree) (p : Program) : Editor.Decompiler :=
  fun bytes =>
    let (files, classFile) := scratch "scratch.class" bytes files
    match launch p files [classFile] with
    | .error fault => .error ⟨p.notRun fault⟩
    | .ok run =>
      if run.status.isSuccess then .ok (Text.Utf8.decodeLossy run.output)
      else
        let diagnostics := Editor.trimEnd (Text.Utf8.decodeLossy run.diagnostics)
        .error ⟨s!"Decompiler exited with {run.status.text}\n{diagnostics}"⟩

end Program

end Classdesk.Tools
