import Classdesk.Highlight.Gate
import Classdesk.Highlight.Span

/-!
# Highlighting while the text changes

Every change of the text takes a new generation number and sends a snapshot to
the dispatcher. The dispatcher keeps the latest snapshot it received and, once the
text has been quiet for a while, queues it as a request with the next sequence
number. Workers take requests, resolve them, and hand the outcome to the sink if
the gate lets it pass; only applied spans are remembered by the gate, reported
faults are not.

`State` holds everything that several threads share, and each function below is
one step that a thread takes on its own: any interleaving of them is a run.
-/

namespace Classdesk.Highlight

/-- Why a text could not be highlighted. -/
inductive HighlightFault
  /-- The resolver gave up. -/
  | failed (reason : String)
  /-- The resolver broke off without an answer. -/
  | brokenOff (reason : String)
  deriving DecidableEq, Repr

/-- The wording of a fault. -/
def HighlightFault.message : HighlightFault → String
  | failed reason => s!"Highlighting failed: {reason}"
  | brokenOff reason => s!"Highlighter panicked: {reason}"

/-- What turns a text into spans. -/
abbrev Resolver := String → Except HighlightFault (List Span)

/-- A text with the generation it was submitted at. -/
structure Snapshot where
  generation : Nat
  text : String
  deriving DecidableEq, Repr

/-- A snapshot on its way to a worker. -/
structure Request where
  sequence : Nat
  snapshot : Snapshot
  deriving DecidableEq, Repr

/-- What a worker is doing. -/
inductive Worker
  | idle
  | busy (request : Request)
  /-- The worker ended because the sink broke off under it. -/
  | gone
  deriving DecidableEq, Repr

/-- A call of the sink. -/
structure SinkCall where
  sequence : Nat
  outcome : Except HighlightFault (List Span)

/-- What the threads of a highlighter share. -/
structure State where
  /-- The generation of the latest change. -/
  generation : Nat
  /-- Changes that have a generation and are not yet sent. -/
  inFlight : List Snapshot
  /-- Whether the dispatcher is running. It ends when there is no worker left to take
  the request it wants to queue. -/
  dispatching : Bool
  /-- Snapshots sent to the dispatcher, the oldest first. -/
  changes : List Snapshot
  /-- The snapshot that the dispatcher waits with. -/
  pending : Option Snapshot
  nextSequence : Nat
  /-- Requests that no worker has taken, the oldest first. -/
  work : List Request
  workers : List Worker
  gate : Gate
  /-- The calls of the sink, the latest first. -/
  calls : List SinkCall

namespace State

/-- A highlighter with some workers, at least one. -/
def start (workers : Nat) : State where
  generation := 0
  inFlight := []
  dispatching := true
  changes := []
  pending := none
  nextSequence := 1
  work := []
  workers := List.replicate (max workers 1) .idle
  gate := .fresh
  calls := []

/-! ## Changing the text -/

/-- A change takes its generation. -/
def beginChange (text : String) (s : State) : State :=
  let generation := s.generation + 1
  { s with generation, inFlight := s.inFlight ++ [⟨generation, text⟩] }

/-- A snapshot is sent; nobody gets it once the dispatcher has ended. -/
def send (snapshot : Snapshot) (s : State) : State :=
  if s.dispatching then { s with changes := s.changes ++ [snapshot] } else s

/-- The change at a place among those in flight is sent. -/
def sendChange (i : Nat) (s : State) : Option State := do
  let snapshot ← s.inFlight[i]?
  some { s.send snapshot with inFlight := s.inFlight.eraseIdx i }

/-- A whole change, when no other one is in flight. -/
def changeText (text : String) (s : State) : State :=
  let generation := s.generation + 1
  { s.send ⟨generation, text⟩ with generation }

/-! ## The dispatcher -/

/-- The dispatcher takes the oldest change, in place of the one it waited with. -/
def receive (s : State) : Option State :=
  match s.changes with
  | [] => none
  | snapshot :: changes =>
    if s.dispatching then some { s with changes, pending := some snapshot } else none

/-- The text has been quiet: the dispatcher queues what it waited with, or ends if all
workers are gone. -/
def timeout (s : State) : Option State := do
  let snapshot ← s.pending
  if s.workers.all (· == .gone) then
    some { s with dispatching := false, pending := none, changes := [] }
  else
    some { s with
      pending := none
      nextSequence := s.nextSequence + 1
      work := s.work ++ [⟨s.nextSequence, snapshot⟩] }

/-! ## Workers -/

/-- An idle worker takes the oldest request. -/
def takeWork (w : Nat) (s : State) : Option State :=
  match s.workers[w]?, s.work with
  | some .idle, request :: work =>
    some { s with work, workers := s.workers.set w (.busy request) }
  | _, _ => none

/-- Hand an outcome to the sink if the gate lets it pass. -/
def complete (request : Request) (outcome : Except HighlightFault (List Span)) (s : State) :
    State :=
  let call : SinkCall := ⟨request.sequence, outcome⟩
  match outcome with
  | .ok _ =>
    match s.gate.pass request.sequence request.snapshot.generation s.generation with
    | .ok gate => { s with gate, calls := call :: s.calls }
    | .error _ => s
  | .error _ =>
    match s.gate.check request.sequence request.snapshot.generation s.generation with
    | .ok () => { s with calls := call :: s.calls }
    | .error _ => s

/-- A busy worker has resolved its request. If the sink breaks off when it is
called, the worker is gone. -/
def finishWork (resolve : Resolver) (sinkBreaks : Bool) (w : Nat) (s : State) : Option State :=
  match s.workers[w]? with
  | some (.busy request) =>
    let done := s.complete request (resolve request.snapshot.text)
    let broken := sinkBreaks && done.calls.length != s.calls.length
    some { done with workers := s.workers.set w (if broken then .gone else .idle) }
  | _ => none

/-- What the sink of a fresh highlighter was called with when the only change of its
text has come to rest, in order. -/
def callsAfter (resolve : Resolver) (text : String) : List SinkCall :=
  let settled := do
    let s ← ((start 1).changeText text).receive
    let s ← s.timeout
    let s ← s.takeWork 0
    s.finishWork resolve false 0
  (settled.map (·.calls.reverse)).getD []

end State

/-- The resolver of a pattern set never fails. -/
def PatternSet.resolver (patterns : PatternSet) : Resolver := fun text =>
  .ok (resolve patterns text)

end Classdesk.Highlight
