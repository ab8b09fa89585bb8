import Classdesk.Text.Split

/-!
# Names of classes and members

A member name is a non-empty text without `.`, `;`, `[` and `/`. A class name is
a sequence of such segments separated by `/`, as in `java/lang/Object`. Both
types carry the proof that their text passed the check, so a name that exists is
a valid name.
-/

namespace Classdesk

/-- Why a text is not a name. -/
inductive NameFault
  /-- A segment holds a character that separates names or types. -/
  | illegalCharacter (segment : String)
  /-- A segment has no characters. -/
  | emptySegment
  /-- A class name has no characters. -/
  | emptyClassName
  deriving DecidableEq, Repr

/-- The wording of a fault. -/
def NameFault.message : NameFault → String
  | illegalCharacter segment => s!"Unqualified name '{segment}' contains an illegal character"
  | emptySegment => "Unqualified name '' is empty"
  | emptyClassName => "Binary name '' is empty"

/-- Characters that no segment of a name may hold. -/
def isNameSeparator (c : Char) : Bool :=
  c == '.' || c == ';' || c == '[' || c == '/'

/-- Check one segment. -/
def checkSegment (cs : List Char) : Except NameFault Unit :=
  if cs.any isNameSeparator then .error (.illegalCharacter (String.ofList cs))
  else if cs.isEmpty then .error .emptySegment
  else .ok ()

/-- Check a list of segments; the first bad one decides. -/
def checkSegments : List (List Char) → Except NameFault Unit
  | [] => .ok ()
  | segment :: segments => do
    checkSegment segment
    checkSegments segments

/-- Check the text of a class name. -/
def checkClassName (cs : List Char) : Except NameFault Unit :=
  if cs.isEmpty then .error .emptyClassName
  else checkSegments (Text.splitOn '/' cs)

/-- The name of a field or a method. -/
structure MemberName where
  text : String
  valid : checkSegment text.toList = .ok ()
  deriving DecidableEq

/-- The name of a class in its internal form, such as `java/lang/Object`. -/
structure ClassName where
  text : String
  valid : checkClassName text.toList = .ok ()
  deriving DecidableEq

namespace MemberName

/-- The name with this text, if it is one. -/
def ofString (text : String) : Except NameFault MemberName :=
  match h : checkSegment text.toList with
  | .ok () => .ok ⟨text, h⟩
  | .error fault => .error fault

/-- Whether this is the name of constructors. -/
def isConstructor (name : MemberName) : Bool := name.text == "<init>"

/-- Whether this is the name of class initialisers. -/
def isClassInitializer (name : MemberName) : Bool := name.text == "<clinit>"

end MemberName

namespace ClassName

/-- The name with this text, if it is one. -/
def ofString (text : String) : Except NameFault ClassName :=
  match h : checkClassName text.toList with
  | .ok () => .ok ⟨text, h⟩
  | .error fault => .error fault

/-- The name as source code spells it, with `.` between the segments. -/
def javaName (name : ClassName) : String :=
  String.ofList (Text.replaceChar '/' ['.'] name.text.toList)

/-- Whether this is the root of the class hierarchy. -/
def isObject (name : ClassName) : Bool := name.text == "java/lang/Object"

end ClassName

end Classdesk
