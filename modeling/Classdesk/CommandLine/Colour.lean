import Classdesk.Highlight.Span
import Classdesk.Text.ByteOffset

/-!
# Coloured text

Labels have styles, and a span is written in the style of one of its labels. Actions,
comments and strings win over whatever is inside them; otherwise the first label with a
style counts. A style is a control sequence in front of the text, which first undoes the
style before it.
-/

namespace Classdesk.CommandLine

/-- The colours of terminals that are in use. -/
inductive Colour
  | red | green | yellow | blue | magenta | cyan
  deriving DecidableEq, Repr

/-- The number of a colour. -/
def Colour.number : Colour → Nat
  | red => 1
  | green => 2
  | yellow => 3
  | blue => 4
  | magenta => 5
  | cyan => 6

/-- How text is written. -/
structure Style where
  bold : Bool := false
  dimmed : Bool := false
  italic : Bool := false
  colour : Option Colour := none
  deriving DecidableEq, Repr

/-- A control sequence with a number. -/
def control (n : Nat) : String := s!"\x1b[{n}m"

/-- What undoes every style. -/
def plain : String := control 0

/-- What switches to a style. -/
def Style.switch (s : Style) : String :=
  let parts := [(s.bold, 1), (s.dimmed, 2), (s.italic, 3)].filterMap fun (on, n) =>
    if on then some (control n) else none
  let colour := (s.colour.map fun c => control (30 + c.number)).getD ""
  plain ++ String.join parts ++ colour

/-- The style of a label. -/
def styleOf? : (label : String) → Option Style
  | "keyword" => some { colour := some .magenta, bold := true }
  | "string" => some { colour := some .green }
  | "comment" => some { colour := some .cyan, italic := true }
  | "action" => some { colour := some .blue, bold := true }
  | "find" => some { colour := some .yellow }
  | "add" => some { colour := some .green, bold := true }
  | "remove" => some { colour := some .red, bold := true }
  | "match" => some { colour := some .yellow, bold := true }
  | "paren" | "brace" | "bracket" | "semicolon" => some { dimmed := true }
  | _ => none

/-- The style of a span. -/
def spanStyle? (s : Highlight.Span) : Option Style :=
  ((["action", "comment", "string"] ++ s.labels).filter s.labels.contains).findSome? styleOf?

/-- The texts of spans that follow each other, each with its span. -/
def slices : List Highlight.Span → List Char → List (Highlight.Span × List Char)
  | [], _ => []
  | s :: spans, text =>
    let front := Text.frontWithin s.length text
    (s, front) :: slices spans (text.drop front.length)

/-- A text with its spans in their styles, or without styles. -/
def coloured (styled : Bool) (spans : List Highlight.Span) (text : String) : String :=
  let switch (s : Highlight.Span) : String := ((spanStyle? s).map Style.switch).getD plain
  let parts := (slices spans text.toList).map fun (s, chars) =>
    (if styled then switch s else "") ++ String.ofList chars
  String.join parts ++ if styled then plain else ""

end Classdesk.CommandLine
