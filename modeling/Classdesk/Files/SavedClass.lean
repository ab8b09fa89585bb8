import Classdesk.Files.FileTree
import Classdesk.Format.ClassFile

/-!
# Saving classes

A class is written to a file of its own, if asked for with the directories that lead to
it.
-/

namespace Classdesk

/-- Why a class could not be saved. -/
inductive SaveFault
  | file (fault : FileFault)
  | stream (fault : StreamFault)
  deriving DecidableEq, Repr

/-- The wording of a fault. -/
def SaveFault.message : SaveFault → String
  | file fault => fault.message
  | stream fault => fault.message

/-- Write a class to a file. -/
def ClassFile.saveTo (path : Path) (makeDirectories : Bool) (files : FileTree) (c : ClassFile) :
    Except SaveFault FileTree := do
  let files ←
    match path.parent? with
    | some parent =>
      if makeDirectories then (files.makeDirectories parent).mapError .file else pure files
    | none => pure files
  let _ ← (files.store path []).mapError .file
  let bytes ← c.write.mapError .stream
  (files.store path bytes).mapError .file

end Classdesk
