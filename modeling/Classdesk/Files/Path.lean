import Classdesk.Text.Split

/-!
# Paths

A path is the text it is written as, with its pieces between slashes. Empty pieces
and `.` say nothing about where a path leads, so they are skipped when a path is
asked for its last name, and a path keeps its own spelling otherwise.
-/

namespace Classdesk

/-- A path as it was written. -/
structure Path where
  text : String
  deriving DecidableEq, Repr

namespace Path

/-- The text between slashes. -/
def pieces (p : Path) : List (List Char) := Text.splitOn '/' p.text.toList

/-- Whether a piece names the place it stands in. -/
def isIdle (piece : List Char) : Bool := piece == [] || piece == ['.']

/-- The last name of a path, unless that leads upwards. -/
def fileName? (p : Path) : Option (List Char) := do
  let name ← (p.pieces.filter fun piece => !isIdle piece).getLast?
  if name = ['.', '.'] then none else some name

/-- What follows the last dot of a name; a dot in front does not count. -/
def extensionOf? (name : List Char) : Option (List Char) :=
  match (Text.splitOn '.' name).reverse with
  | extension :: before :: more =>
    if before = [] && more.isEmpty then none else some extension
  | _ => none

/-- The extension of the last name of a path. -/
def extension? (p : Path) : Option (List Char) := p.fileName?.bind extensionOf?

/-- Whether a path looks like a jar, in capital or small letters. -/
def isJar (p : Path) : Bool :=
  (p.extension?.map fun extension => extension.map Char.toLower) == some "jar".toList

/-- A path with a name below it. -/
def join (p : Path) (name : String) : Path :=
  ⟨if p.text.isEmpty || p.text.toList.getLast? == some '/' then p.text ++ name
    else p.text ++ "/" ++ name⟩

/-- A text without the slashes and `.` pieces in front. -/
def dropIdle : List Char → List Char
  | [] => []
  | '/' :: cs => dropIdle cs
  | ['.'] => []
  | '.' :: '/' :: cs => dropIdle cs
  | c :: cs => c :: cs

/-- The same from the end: `atEnd` takes the text backwards. -/
def dropIdleEnd (cs : List Char) : List Char :=
  (atEnd cs.reverse).reverse
where
  /-- A backwards text without the slashes and `.` pieces it starts with. -/
  atEnd : List Char → List Char
    | '/' :: cs => atEnd cs
    | '.' :: '/' :: cs => atEnd cs
    | cs => cs

/-- A path in which a leading `~` stands for the home directory. Only a whole first
piece counts. -/
def expandHome (p home : Path) : Path :=
  match p.text.toList with
  | ['~'] => home.join ""
  | '~' :: '/' :: rest => home.join (String.ofList (dropIdleEnd (dropIdle rest)))
  | _ => p

/-- The directory that a path lies in. The root lies in none. -/
def parent? (p : Path) : Option Path :=
  let chars := dropIdleEnd p.text.toList
  let front := (chars.reverse.dropWhile (· ≠ '/')).reverse
  if chars.isEmpty then none
  else
    match dropIdleEnd front, front.head? with
    | [], some '/' => some ⟨"/"⟩
    | kept, _ => some ⟨String.ofList kept⟩

end Path

end Classdesk
