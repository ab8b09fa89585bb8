import Classdesk.Text.Split

/-!
# Indented output

An `Indenter` passes text on to a sink and puts the indentation of the current
level in front of every line that is not empty. The indentation is written when
the first character of a line is, so empty lines stay empty and a level change
takes effect on the next line that starts.

A sink may refuse a text. The run stops there, and what the sink took before
stays: `Output` keeps its state when it fails.
-/

namespace Classdesk.Listing

/-- Something that takes text piece by piece and may refuse a piece. -/
class Sink (σ : Type) where
  /-- The sink with one more piece, or `none` if it refuses. -/
  accept : σ → String → Option σ

/-- A text takes everything. -/
instance : Sink String where
  accept text piece := some (text ++ piece)

/-- A text that holds at most `limit` bytes. -/
structure LimitedText where
  limit : Nat
  text : String

instance : Sink LimitedText where
  accept sink piece :=
    if sink.text.utf8ByteSize + piece.utf8ByteSize ≤ sink.limit then
      some { sink with text := sink.text ++ piece }
    else none

/-- Output on its way to a sink. -/
structure Indenter (σ : Type) where
  /-- The text of one level of indentation. -/
  unit : String
  /-- How deep lines that start now are indented. -/
  level : Nat
  /-- Whether something was written on the current line. -/
  inLine : Bool
  sink : σ

/-- A step of output. -/
inductive Op
  | text (s : String)
  /-- End the line. -/
  | newline
  | indent
  /-- Go back one level, unless there is none. -/
  | unindent
  deriving DecidableEq, Repr

/-- Output steps that may fail; the indenter is kept either way. -/
abbrev Output (σ : Type) := OptionT (StateM (Indenter σ))

namespace Indenter

variable {σ : Type}

/-- An indenter at the start of a line, at level zero. -/
def ofSink (unit : String) (sink : σ) : Indenter σ := ⟨unit, 0, false, sink⟩

variable [Sink σ]

/-- Pass a piece on to the sink. -/
def emit (piece : String) : Output σ Unit := fun out =>
  match Sink.accept out.sink piece with
  | some sink => (some (), { out with sink })
  | none => (none, out)

/-- Write the indentation `n` times. -/
def emitUnits : Nat → Output σ Unit
  | 0 => pure ()
  | n + 1 => do
    let out ← get
    emit out.unit
    emitUnits n

/-- Indent the line if nothing was written on it. -/
def startLine : Output σ Unit := do
  let out ← get
  if out.inLine then pure ()
  else
    emitUnits out.level
    modify fun out => { out with inLine := true }

/-- Write a part of one line, which may end with its line feed. -/
def writePiece (piece : List Char) : Output σ Unit := do
  if piece ≠ ['\n'] then startLine
  emit (String.ofList piece)
  modify fun out => { out with inLine := piece.getLast? != some '\n' }

/-- Write some parts of lines. -/
def writePieces : List (List Char) → Output σ Unit
  | [] => pure ()
  | piece :: pieces => do
    writePiece piece
    writePieces pieces

/-- Carry out one step. -/
def apply : Op → Output σ Unit
  | .text s => writePieces (Text.splitAfter '\n' s.toList)
  | .newline => do
    emit "\n"
    modify fun out => { out with inLine := false }
  | .indent => modify fun out => { out with level := out.level + 1 }
  | .unindent => modify fun out => { out with level := out.level - 1 }

/-- Carry out steps until one fails. -/
def applyAll : List Op → Output σ Unit
  | [] => pure ()
  | op :: ops => do
    apply op
    applyAll ops

end Indenter

end Classdesk.Listing
