import Classdesk.Archive.Zip
import Classdesk.Files.FileTree
import Classdesk.Format.Fault
import Classdesk.Listing.Printer
import Classdesk.Text.CharRanges

/-!
# What can go wrong while editing

Every step of an editing session either succeeds or ends with an `EditFault`, which
says what failed and keeps the fault of the part that failed.
-/

namespace Classdesk.Editor

/-- A patch could not be applied: what went wrong, and what the patcher had to say
about it, which may be nothing. -/
structure PatchFailure where
  reason : String
  diagnostics : String := ""
  deriving DecidableEq, Repr

/-- A text without the white space at its end. -/
def trimEnd (text : String) : String :=
  String.ofList (text.toList.reverse.dropWhile Text.isWhite).reverse

/-- The wording of a failure. -/
def PatchFailure.message (f : PatchFailure) : String :=
  let headline := s!"Patch could not be applied: {f.reason}"
  if f.diagnostics.isEmpty then headline else headline ++ "\n" ++ trimEnd f.diagnostics

/-- A class could not be turned back into source. -/
structure DecompileFailure where
  reason : String
  deriving DecidableEq, Repr

/-- The wording of a failure. -/
def DecompileFailure.message (f : DecompileFailure) : String :=
  s!"Decompilation failed: {f.reason}"

/-- Why a file could not be read or written. -/
inductive AccessFault
  | file (fault : FileFault)
  /-- The data of an archive entry is damaged. -/
  | data (fault : Archive.DataFault)
  /-- A text file does not hold UTF-8. -/
  | notText
  deriving DecidableEq, Repr

/-- The wording of a fault. -/
def AccessFault.message : AccessFault → String
  | file fault => fault.message
  | data fault => fault.message
  | notText => "stream did not contain valid UTF-8"

/-- Why a jar could not be opened. -/
inductive JarFault
  | file (fault : FileFault)
  | archive (fault : Archive.ArchiveFault)
  deriving DecidableEq, Repr

/-- The wording of a fault. -/
def JarFault.message : JarFault → String
  | file fault => fault.message
  | archive fault => fault.message

/-- What can go wrong while editing. -/
inductive EditFault
  | access (fault : AccessFault)
  /-- The jar that holds the class could not be read, or has no such class. -/
  | jar (fault : JarFault)
  /-- The class, as it was or patched, is no class file. -/
  | classFile (fault : ClassFault)
  | listing (fault : Listing.PrintFault)
  | patch (failure : PatchFailure)
  | decompile (failure : DecompileFailure)
  /-- The patch was never given a path. -/
  | noPatchPath

namespace EditFault

/-- The wording of the fault that was passed on, if there is one. -/
def cause? : EditFault → Option String
  | access fault => some fault.message
  | jar fault => some fault.message
  | classFile fault => some fault.message
  | listing fault => some fault.message
  | patch failure => some failure.message
  | decompile failure => some failure.message
  | noPatchPath => none

/-- The wording of a fault. -/
def message : EditFault → String
  | access fault => s!"I/O error: {fault.message}"
  | jar fault => s!"Jar error: {fault.message}"
  | classFile fault => s!"Invalid class file: {fault.message}"
  | listing fault => fault.message
  | patch failure => failure.message
  | decompile failure => failure.message
  | noPatchPath => "Patch has not been saved anywhere yet"

end EditFault

end Classdesk.Editor
