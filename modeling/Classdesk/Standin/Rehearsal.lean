import Classdesk.Highlight.Highlighter

/-!
# Rehearsing a highlighter

Nothing here is part of the program, whose steps happen in any order. A rehearsal runs the
steps of a highlighter one after the other, in a fixed order, so that its behaviour can be
watched without threads or clocks. Time only passes in `settle`: then everything that can
happen does, the quiet period last.

The text itself says how its resolver behaves. After `hold:ID:` it waits until
`ID` is released. Then `fail:M` fails with `M`, `panic:M` breaks off with `M`, and
every other text resolves.
-/

namespace Classdesk.Standin

open Highlight

/-- What stands behind a front part of a text, if it starts with it. -/
def behind? (front text : List Char) : Option (List Char) :=
  if front.isPrefixOf text then some (text.drop front.length) else none

/-- The name that a text is held by, and what follows. -/
def heldBy? (text : String) : Option (String × List Char) := do
  let rest ← behind? "hold:".toList text.toList
  match Text.splitOn ':' rest with
  | id :: _ :: _ => some (String.ofList id, rest.drop (id.length + 1))
  | _ => none

/-- The resolver of a rehearsal. -/
def scriptedResolver (patterns : PatternSet) : Resolver := fun text =>
  let rest := ((heldBy? text).map Prod.snd).getD text.toList
  match behind? "fail:".toList rest, behind? "panic:".toList rest with
  | some reason, _ => .error (.failed (String.ofList reason))
  | none, some reason =>
    match String.ofList reason with
    | "static" => .error (.brokenOff "static message")
    | "any" => .error (.brokenOff "unknown panic")
    | reason => .error (.brokenOff reason)
  | none, none => .ok (resolve patterns text)

/-- A highlighter with what its resolver has seen. -/
structure Rehearsal where
  patterns : PatternSet
  state : State
  /-- Texts the resolver was entered with, the latest first. -/
  seen : List String
  /-- Names whose texts are no longer held. -/
  released : List String

namespace Rehearsal

/-- A rehearsal with nothing seen. -/
def start (patterns : PatternSet) (workers : Nat) : Rehearsal :=
  ⟨patterns, .start workers, [], []⟩

/-- Change the text. -/
def change (text : String) (r : Rehearsal) : Rehearsal :=
  { r with state := r.state.changeText text }

/-- Release the texts held by a name. -/
def release (id : String) (r : Rehearsal) : Rehearsal :=
  { r with released := id :: r.released }

/-- Whether a worker is resolving a text that is not held. -/
def canFinish (r : Rehearsal) : Worker → Bool
  | .busy request =>
    match heldBy? request.snapshot.text with
    | some (id, _) => r.released.contains id
    | none => true
  | _ => false

/-- The first worker that can finish does. -/
def finishOne (r : Rehearsal) : Option Rehearsal := do
  let w ← r.state.workers.findIdx? r.canFinish
  let state ← r.state.finishWork (scriptedResolver r.patterns) false w
  some { r with state }

/-- The first idle worker takes a request. -/
def takeOne (r : Rehearsal) : Option Rehearsal := do
  let w ← r.state.workers.findIdx? (· == .idle)
  let request ← r.state.work.head?
  let state ← r.state.takeWork w
  some { r with state, seen := request.snapshot.text :: r.seen }

/-- Something happens; the dispatcher only acts while `dispatching`. -/
def step (dispatching : Bool) (r : Rehearsal) : Option Rehearsal :=
  r.finishOne <|> r.takeOne <|>
    if dispatching then
      (r.state.receive <|> r.state.timeout).map fun state => { r with state }
    else none

/-- Steps up to a condition, or until nothing can happen. -/
def run (dispatching : Bool) (stop : Rehearsal → Bool) : (fuel : Nat) → Rehearsal → Rehearsal
  | 0, r => r
  | fuel + 1, r =>
    if stop r then r
    else
      match r.step dispatching with
      | some r => run dispatching stop fuel r
      | none => r

/-- A bound on the steps that can happen without another change: a change takes
at most four steps from being sent to being shown. -/
def stepBound (r : Rehearsal) : Nat :=
  4 * (r.state.changes.length + 1 + r.state.work.length + r.state.workers.length)

/-- Let time pass until a condition holds. -/
def settle (stop : Rehearsal → Bool) (r : Rehearsal) : Rehearsal :=
  r.run true stop r.stepBound

/-- End the highlighter: what is queued still runs, what is waiting does not. -/
def close (r : Rehearsal) : Rehearsal :=
  r.run false (fun _ => false) r.stepBound

end Rehearsal

end Classdesk.Standin
