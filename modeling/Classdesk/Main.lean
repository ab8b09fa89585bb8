import Classdesk.CommandLine.Execute
import Classdesk.Standin.Shell

/-!
# The program

Reads the files that the arguments name, carries the command out, and writes its outcome.
-/

namespace Classdesk.CommandLine

/-- A tree with what is at a path of this machine, and everything below it. Scripts count
as executable. -/
partial def load (files : FileTree) (path : Path) : IO FileTree := do
  let real ← IO.FS.realPath path.text
  if ← real.isDir then
    let entries ← real.readDir
    entries.foldlM (fun files entry => load files (path.join entry.fileName))
      (files.addDirectory path)
  else if ← real.pathExists then
    let content := (← IO.FS.readBinFile real).toList
    pure (files.addAt path content ((Text.Utf8.encode "#!").isPrefixOf content))
  else pure files

/-- The paths among some arguments: all that are no options. -/
def pathsAmong (home : Path) (arguments : List String) : List Path :=
  (arguments.filter Arguments.isValue).map fun argument => (Path.mk argument).expandHome home

/-- The settings and files of this machine, as far as some arguments name them. -/
def environment (arguments : List String) : IO Environment := do
  let home : Path := ⟨(← IO.getEnv "HOME").getD ""⟩
  let current ← IO.currentDir
  let here := ((Path.mk current.toString).pieces.filter fun p => !Path.isIdle p).map String.ofList
  let plainOnly := (← IO.getEnv "NO_COLOR").isSome
  let styled := showsColours (← IO.getEnv "TERM") && !plainOnly
  let files ← (pathsAmong home arguments).foldlM (fun files path =>
    try load files path catch _ => pure files) (FileTree.empty here)
  pure { home, styled, files, launch := Standin.launch }

end Classdesk.CommandLine

open Classdesk.CommandLine in
/-- Carry out what the arguments ask for. -/
def main (arguments : List String) : IO UInt32 := do
  let outcome := run (← environment arguments) arguments
  (← IO.getStdout).putStr outcome.output
  (← IO.getStderr).putStr outcome.errors
  pure (UInt32.ofNat outcome.exit)
