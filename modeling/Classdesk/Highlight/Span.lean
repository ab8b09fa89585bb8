import Classdesk.Highlight.PatternSet

/-!
# Spans

Matches of different patterns may overlap. Resolving them cuts the text at every
end of a match; each piece carries the labels of all matches that cover it. The
pieces tile the text without gap or overlap, and text that nothing matches is in
pieces without labels. Matches without text are left out. An empty text is one empty
piece.

Positions are byte offsets into the UTF-8 form of the text.
-/

namespace Classdesk.Highlight

/-- A range of text with the labels active in it, in increasing order. -/
structure Span where
  start : Nat
  stop : Nat
  labels : List String
  deriving DecidableEq, Repr

namespace Span

/-- The number of bytes of a span. -/
def length (s : Span) : Nat := s.stop - s.start

/-- Whether a span holds no text. -/
def isEmpty (s : Span) : Bool := s.start == s.stop

end Span

/-- A position where a match with some label starts or ends. -/
structure Event where
  offset : Nat
  isStart : Bool
  label : String
  deriving DecidableEq, Repr

namespace Event

/-- Events go by their offset; at one offset ends come before starts, and then
they go by their label. -/
def le (a b : Event) : Bool :=
  if a.offset ≠ b.offset then a.offset < b.offset
  else if a.isStart ≠ b.isStart then b.isStart
  else a.label ≤ b.label

end Event

/-- The events of all matches of all patterns, in order. A match that covers no text has
none. -/
def boundaryEvents (patterns : PatternSet) (text : String) : List Event :=
  (patterns.flatMap fun p =>
    (p.regex.findAll text).flatMap fun (start, stop) =>
      if start = stop then []
      else [⟨start, true, p.label⟩, ⟨stop, false, p.label⟩]).mergeSort Event.le

/-- The distinct labels of a list, in increasing order. -/
def distinctLabels (labels : List String) : List String :=
  labels.eraseDups.mergeSort fun a b => a ≤ b

/-- The labels active behind an event; a label is active once for each match. -/
def Event.update (active : List String) (e : Event) : List String :=
  if e.isStart then e.label :: active else active.erase e.label

/-- Cut the text from `previous` to `length` at the offsets of some events. -/
def sweep (length : Nat) : (previous : Nat) → (active : List String) → List Event → List Span
  | previous, active, [] =>
    if previous < length || previous == 0 then
      [⟨previous, length, distinctLabels active⟩]
    else []
  | previous, active, e :: events =>
    if previous < e.offset then
      ⟨previous, e.offset, distinctLabels active⟩ ::
        sweep length e.offset (e.update active) events
    else sweep length previous (e.update active) events

/-- The spans of a text. -/
def resolve (patterns : PatternSet) (text : String) : List Span :=
  sweep text.utf8ByteSize 0 [] (boundaryEvents patterns text)

end Classdesk.Highlight
