import Classdesk.Editor.Fault

/-!
# Where classes come from

A class is a file of its own or an entry of a jar. In a jar, the class `a.b.C` is the
entry `a/b/C.class`; a name that already ends in `.class` is taken as well.
-/

namespace Classdesk.Editor

/-- The ending of class files. -/
def classEnding : List Char := ".class".toList

/-- A name without a final `.class`, in capital or small letters. -/
def dropClassEnding (name : List Char) : List Char :=
  let stem := name.take (name.length - classEnding.length)
  if (name.drop stem.length).map Char.toLower = classEnding then stem else name

/-- The entry of a jar that holds a class. -/
def entryName (className : String) : String :=
  String.ofList (Text.replaceChar '.' ['/'] (dropClassEnding className.toList) ++ classEnding)

/-- Where the bytes of a class come from. -/
inductive ClassSource
  | file (path : Path)
  | entry (jar : Path) (name : String)
  deriving DecidableEq, Repr

namespace ClassSource

/-- The class with a name in a jar. -/
def inJar (home jar : Path) (className : String) : ClassSource :=
  .entry (jar.expandHome home) (entryName className)

/-- What the user asks for: the class with a name inside the input, or the input. -/
def ofInput (home input : Path) : (className : Option String) → ClassSource
  | some className => inJar home input className
  | none => .file (input.expandHome home)

/-- The path that is shown to the user. -/
def displayPath : ClassSource → Path
  | file path => path
  | entry jar name => ⟨s!"{jar.text}!/{name}"⟩

end ClassSource

/-- Open a jar. -/
def openJar (files : FileTree) (jar : Path) : Except EditFault Archive :=
  match files.open? jar with
  | .error fault => .error (.access (.file fault))
  | .ok .directory => .error (.jar (.file .isDirectory))
  | .ok (.file content _) => (Archive.read content).mapError fun fault => .jar (.archive fault)

/-- The bytes of a class. -/
def ClassSource.read (files : FileTree) : ClassSource → Except EditFault Bytes
  | file path => (files.contentAt path).mapError fun fault => .access (.file fault)
  | entry jar name => do
    let archive ← openJar files jar
    let opened ← (archive.openEntry name).mapError fun fault => .jar (.archive fault)
    opened.mapError fun fault => .access (.data fault)

/-- The classes of a jar, by the order of their names. -/
def classesInJar (home : Path) (files : FileTree) (jar : Path) :
    Except EditFault (List ClassSource) := do
  let jar := jar.expandHome home
  let archive ← openJar files jar
  let names := archive.names.filter fun name => classEnding.isSuffixOf name.toList
  pure ((names.mergeSort fun a b => a ≤ b).map (.entry jar))

end Classdesk.Editor
