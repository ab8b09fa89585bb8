import Classdesk.Pattern.Regex
import Classdesk.Text.Escaped

/-!
# Labelled patterns

A pattern gives a label to the text it matches. A set is compiled from pairs of
a source and a label, and the first source that is no expression fails the whole
set.
-/

namespace Classdesk.Highlight

/-- Something to search for, with the label of the text it matches. -/
structure Pattern where
  regex : Pattern.Regex
  label : String

/-- A pattern that could not be compiled. -/
structure CompileFault where
  source : String
  label : String
  cause : Pattern.SyntaxFault
  deriving DecidableEq, Repr

/-- The wording of a fault, up to its cause. -/
def CompileFault.message (f : CompileFault) : String :=
  s!"Pattern {Text.escaped f.source} (label {Text.escaped f.label}) failed to compile: "

/-- Patterns in a fixed order. -/
abbrev PatternSet := List Pattern

/-- Compile one pattern. -/
def Pattern.compile (source label : String) : Except CompileFault Pattern :=
  match Pattern.Regex.compile source with
  | .ok regex => .ok { regex, label }
  | .error cause => .error { source, label, cause }

/-- Compile pairs of a source and a label, in order. -/
def PatternSet.compile : List (String × String) → Except CompileFault PatternSet
  | [] => .ok []
  | (source, label) :: pairs => do
    let pattern ← Pattern.compile source label
    let patterns ← PatternSet.compile pairs
    .ok (pattern :: patterns)

end Classdesk.Highlight
