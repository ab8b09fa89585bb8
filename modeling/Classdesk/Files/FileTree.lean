import Classdesk.Bytes
import Classdesk.Files.Path

/-!
# Files and directories

A `FileTree` says what stands at which location, where a location is a list of names
from the root. Paths are followed from the root or from the current directory; every
step of the way must be a directory. A write that fails leaves the tree as it was.
-/

namespace Classdesk

/-- Why a file could not be reached. -/
inductive FileFault
  | notFound
  | noPermission
  | alreadyExists
  | notDirectory
  | isDirectory
  /-- A file that is to be run is no program. -/
  | notProgram
  deriving DecidableEq, Repr

/-- The wording of a fault. -/
def FileFault.message : FileFault → String
  | notFound => "No such file or directory (os error 2)"
  | noPermission => "Permission denied (os error 13)"
  | alreadyExists => "File exists (os error 17)"
  | notDirectory => "Not a directory (os error 20)"
  | isDirectory => "Is a directory (os error 21)"
  | notProgram => "Exec format error (os error 8)"

/-- The names on the way from the root. -/
abbrev Location := List String

/-- What stands at a location. -/
inductive Node
  | file (content : Bytes) (executable : Bool)
  | directory
  deriving DecidableEq, Repr

/-- Files and directories below a root, and the directory that paths start from. -/
structure FileTree where
  here : Location
  nodes : List (Location × Node)

namespace FileTree

/-- The locations on the way from the root to a location, both included. -/
def ancestors : Location → List Location
  | [] => [[]]
  | name :: names => [] :: (ancestors names).map (name :: ·)

/-- A tree with a current directory and nothing else. -/
def empty (here : Location) : FileTree :=
  ⟨here, (ancestors here).map fun l => (l, .directory)⟩

/-- What stands at a location. -/
def node? (t : FileTree) (l : Location) : Option Node := t.nodes.lookup l

/-- Put something at a location, in place of what is there. -/
def put (t : FileTree) (l : Location) (n : Node) : FileTree :=
  { t with nodes := (l, n) :: t.nodes.filter (·.1 != l) }

/-- Put a directory at a location unless there is one. -/
def putDirectory (t : FileTree) (l : Location) : FileTree :=
  if t.node? l = some .directory then t else t.put l .directory

/-- Put a file at a location, with the directories above it. -/
def addFile (t : FileTree) (l : Location) (content : Bytes) (executable : Bool) : FileTree :=
  ((ancestors l.dropLast).foldl putDirectory t).put l (.file content executable)

/-- Where a path starts. -/
def origin (t : FileTree) (p : Path) : Location :=
  if p.text.toList.head? = some '/' then [] else t.here

/-- One step of a path from a location, whatever is there. -/
def toward (l : Location) (piece : List Char) : Location :=
  if Path.isIdle piece then l
  else if piece = ['.', '.'] then l.dropLast
  else l ++ [String.ofList piece]

/-- The location that a path spells out, whatever is on the way. -/
def spelled (t : FileTree) (p : Path) : Location := p.pieces.foldl toward (t.origin p)

/-- Put a file where a path leads to, with the directories above it. -/
def addAt (t : FileTree) (p : Path) (content : Bytes) (executable : Bool) : FileTree :=
  t.addFile (t.spelled p) content executable

/-- Put a directory where a path leads to, with those above it. -/
def addDirectory (t : FileTree) (p : Path) : FileTree :=
  (ancestors (t.spelled p)).foldl putDirectory t

/-! ## Following paths -/

/-- Take the steps of a path from a location. Each of them starts at a directory. -/
def follow (t : FileTree) : Location → List (List Char) → Except FileFault Location
  | l, [] => .ok l
  | l, piece :: pieces =>
    match t.node? l with
    | none => .error .notFound
    | some (.file ..) => .error .notDirectory
    | some .directory => t.follow (toward l piece) pieces

/-- The location that a path leads to, whether or not something is there. -/
def locate (t : FileTree) (p : Path) : Except FileFault Location :=
  if p.text.isEmpty then .error .notFound else t.follow (t.origin p) p.pieces

/-- What a path leads to. -/
def open? (t : FileTree) (p : Path) : Except FileFault Node := do
  match t.node? (← t.locate p) with
  | some n => .ok n
  | none => .error .notFound

/-- The content of a file. -/
def contentAt (t : FileTree) (p : Path) : Except FileFault Bytes := do
  match ← t.open? p with
  | .file content _ => .ok content
  | .directory => .error .isDirectory

/-- Whether a path leads to a file. -/
def isFile (t : FileTree) (p : Path) : Bool :=
  match t.open? p with
  | .ok (.file ..) => true
  | _ => false

/-! ## Changing files -/

/-- The location that a path gives to a new file: a name in a directory. A path that
ends in a slash asks for a directory. -/
def newFile (t : FileTree) (p : Path) : Except FileFault Location := do
  if p.text.isEmpty then throw .notFound
  let way := (p.pieces.reverse.dropWhile (· == [])).reverse
  let parent ← t.follow (t.origin p) way.dropLast
  match t.node? parent, way.getLast? with
  | none, _ => .error .notFound
  | some (.file ..), _ => .error .notDirectory
  | some .directory, none => .error .isDirectory
  | some .directory, some name =>
    if way.length < p.pieces.length || Path.isIdle name || name = ['.', '.'] then
      .error .isDirectory
    else .ok (parent ++ [String.ofList name])

/-- Write a file, new or in place of an old one. -/
def store (t : FileTree) (p : Path) (content : Bytes) : Except FileFault FileTree := do
  let l ← t.newFile p
  match t.node? l with
  | some .directory => .error .isDirectory
  | some (.file _ executable) => .ok (t.put l (.file content executable))
  | none => .ok (t.put l (.file content false))

/-- Make the directories along a way from a location. -/
def makeAlong (t : FileTree) : Location → List (List Char) → Except FileFault FileTree
  | _, [] => .ok t
  | l, piece :: pieces =>
    let l := toward l piece
    match t.node? l with
    | some .directory => t.makeAlong l pieces
    | some (.file ..) => .error (if pieces.all Path.isIdle then .alreadyExists else .notDirectory)
    | none => (t.put l .directory).makeAlong l pieces

/-- Make a directory and those above it. -/
def makeDirectories (t : FileTree) (p : Path) : Except FileFault FileTree :=
  t.makeAlong (t.origin p) p.pieces

/-! ## Listing -/

/-- Whether one location comes before another, name by name. -/
def locationLe : Location → Location → Bool
  | [], _ => true
  | _ :: _, [] => false
  | a :: as, b :: bs => if a = b then locationLe as bs else a < b

/-- The way down from a location to another one below it. -/
def below? (l : Location) (m : Location) : Option Location :=
  if l.isPrefixOf m then some (m.drop l.length) else none

/-- The files with an extension below a path, in order. A path that leads nowhere has
none. -/
def filesBelow (t : FileTree) (p : Path) (extension : String) : List Path :=
  match t.locate p with
  | .error _ => []
  | .ok l =>
    let found := t.nodes.filterMap fun
      | (m, .file ..) => do
        let way ← below? l m
        let ext ← Path.extensionOf? (← way.getLast?).toList
        if ext = extension.toList then some way else none
      | _ => none
    (found.mergeSort locationLe).map fun way => way.foldl Path.join p

end FileTree

end Classdesk
