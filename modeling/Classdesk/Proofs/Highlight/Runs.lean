import Classdesk.Highlight.Highlighter
import Mathlib.Algebra.Order.Group.Multiset
import Mathlib.Data.List.Induction
import Mathlib.Data.List.Perm.Basic
import Mathlib.Tactic.Abel

/-!
# Runs of the highlighter

A run is a list of actions, each one step of one thread: a caller that changes the text
takes a generation and sends its snapshot later, the dispatcher receives a snapshot or
finds that the text has been quiet, a worker takes a request or is done with one. Any
list of actions that can happen one after the other is a run, so runs are all
interleavings of any number of callers and workers.

What an action does to a highlighter is said once, in `step_effect`. For this the places
where a snapshot can be are put together:

> `carried`: the snapshots in flight, sent, waited with, queued or being resolved.

An action other than a change moves snapshots on or drops them, and makes none.
-/

namespace Classdesk.Highlight

/-- One step of one thread. -/
inductive Action
  /-- A caller takes a generation for a new text. -/
  | change (text : String)
  /-- A caller sends the change at a place among those in flight. -/
  | send (i : Nat)
  | receive
  | timeout
  | take (w : Nat)
  /-- A worker takes its outcome to the gate; the sink may break off if it is called. -/
  | finish (w : Nat) (sinkBreaks : Bool)

/-- The text that an action submits. -/
def Action.text? : Action → Option String
  | change text => some text
  | _ => none

/-- The request that a worker is resolving. -/
def Worker.request? : Worker → Option Request
  | busy request => some request
  | _ => none

/-- What passes the gate belongs to the current text. -/
theorem Gate.generation_of_check {gate : Gate} {sequence generation current : Nat}
    (h : gate.check sequence generation current = .ok ()) : generation = current := by
  unfold check at h
  by_cases hchanged : generation = current
  · exact hchanged
  · simp [hchanged] at h

private theorem Gate.generation_of_pass {gate after : Gate} {sequence generation current : Nat}
    (h : gate.pass sequence generation current = .ok after) : generation = current := by
  cases hcheck : gate.check sequence generation current with
  | error stale => simp [pass, hcheck, Except.map] at h
  | ok u => exact generation_of_check hcheck

namespace State

/-- The state behind an action, if the action can happen. -/
def step (resolve : Resolver) : Action → State → Option State
  | .change text, s => some (s.beginChange text)
  | .send i, s => s.sendChange i
  | .receive, s => s.receive
  | .timeout, s => s.timeout
  | .take w, s => s.takeWork w
  | .finish w sinkBreaks, s => s.finishWork resolve sinkBreaks w

/-- The state of a highlighter behind some actions, if they can happen in this order. -/
def run (resolve : Resolver) (workers : Nat) (actions : List Action) : Option State :=
  actions.foldlM (fun s a => s.step resolve a) (start workers)

/-- What holds at the start and is kept by every action holds in every run. -/
theorem run_induction {resolve : Resolver} {workers : Nat} {P : List Action → State → Prop}
    (hstart : P [] (start workers))
    (hstep : ∀ past a s s', run resolve workers past = some s → P past s →
      s.step resolve a = some s' → P (past ++ [a]) s')
    {actions : List Action} {s : State} (hrun : run resolve workers actions = some s) :
    P actions s := by
  induction actions using List.reverseRec generalizing s with
  | nil =>
    cases hrun
    exact hstart
  | append_singleton past a ih =>
    simp only [run, List.foldlM_append, List.foldlM_cons, List.foldlM_nil, bind_pure] at hrun
    obtain ⟨m, hpast, hlast⟩ := Option.bind_eq_some_iff.mp hrun
    exact hstep past a m s hpast (ih hpast) hlast

/-- A change that nobody comes between is its two steps. -/
theorem changeText_eq_steps {s : State} (h : s.inFlight = []) (text : String) :
    (s.beginChange text).sendChange 0 = some (s.changeText text) := by
  by_cases hd : s.dispatching = true
  · simp [sendChange, beginChange, changeText, send, h, hd]
  · simp [sendChange, beginChange, changeText, send, h, hd]

/-! ## Snapshots -/

/-- The snapshots that were submitted, in order; their generations count from 1. -/
def submitted (actions : List Action) : List Snapshot :=
  ((actions.filterMap Action.text?).zipIdx 1).map fun (text, generation) => ⟨generation, text⟩

/-- A change submits the next snapshot. -/
theorem submitted_change (past : List Action) (text : String) :
    submitted (past ++ [.change text])
      = submitted past ++ [⟨(submitted past).length + 1, text⟩] := by
  simp [submitted, Action.text?, List.zipIdx_append, Nat.add_comm]

/-- Nothing else submits one. -/
theorem submitted_other (past : List Action) {a : Action} (h : a.text? = none) :
    submitted (past ++ [a]) = submitted past := by
  simp [submitted, h]

/-- No generation is above the number of changes. -/
theorem generation_le_length_submitted {past : List Action} {x : Snapshot}
    (h : x ∈ submitted past) : x.generation ≤ (submitted past).length := by
  simp only [submitted, List.mem_map, Prod.exists] at h
  obtain ⟨text, generation, hmem, rfl⟩ := h
  have hlt := List.snd_lt_add_of_mem_zipIdx hmem
  simp only [submitted, List.length_map, List.length_zipIdx]
  omega

/-- The requests that are queued or being resolved. -/
def requests (s : State) : Multiset Request :=
  ↑s.work + ↑(s.workers.filterMap Worker.request?)

/-- The snapshots that may still become a request. -/
def waiting (s : State) : Multiset Snapshot :=
  ↑s.inFlight + ↑s.changes + ↑s.pending.toList

/-- The snapshots that may still be shown. -/
def carried (s : State) : Multiset Snapshot :=
  s.waiting + s.requests.map Request.snapshot

/-! ## What an action does -/

/-- What can happen to the snapshots, the requests and the calls in one action. -/
inductive Effect (resolve : Resolver) (s s' : State) : Action → Prop
  /-- A snapshot with the next generation comes in. -/
  | changed (text : String) (hgeneration : s'.generation = s.generation + 1)
    (hcarried : s'.carried = ⟨s.generation + 1, text⟩ ::ₘ s.carried)
    (hrequests : s'.requests = s.requests) (hnext : s'.nextSequence = s.nextSequence)
    (hcalls : s'.calls = s.calls) : Effect resolve s s' (.change text)
  /-- Snapshots move on or are dropped. -/
  | moved {a : Action} (htext : a.text? = none) (hgeneration : s'.generation = s.generation)
    (hcarried : s'.carried ≤ s.carried) (hrequests : s'.requests ≤ s.requests)
    (hnext : s'.nextSequence = s.nextSequence) (hcalls : s'.calls = s.calls) :
    Effect resolve s s' a
  /-- The snapshot that was waited with becomes a request. -/
  | queued (snapshot : Snapshot) (hgeneration : s'.generation = s.generation)
    (hcarried : s'.carried = s.carried)
    (hrequests : s'.requests = ⟨s.nextSequence, snapshot⟩ ::ₘ s.requests)
    (hnext : s'.nextSequence = s.nextSequence + 1) (hcalls : s'.calls = s.calls) :
    Effect resolve s s' .timeout
  /-- A request for the current text is done, and the sink gets its outcome. -/
  | called (w : Nat) (sinkBreaks : Bool) (request : Request)
    (hworker : s.workers[w]? = some (.busy request))
    (hcurrent : request.snapshot.generation = s.generation)
    (hgeneration : s'.generation = s.generation)
    (hcarried : s.carried = request.snapshot ::ₘ s'.carried)
    (hrequests : s.requests = request ::ₘ s'.requests)
    (hnext : s'.nextSequence = s.nextSequence)
    (hcalls : s'.calls = ⟨request.sequence, resolve request.snapshot.text⟩ :: s.calls) :
    Effect resolve s s' (.finish w sinkBreaks)

private theorem carried_beginChange (s : State) (text : String) :
    (s.beginChange text).carried = ⟨s.generation + 1, text⟩ ::ₘ s.carried := by
  simp only [carried, waiting, requests, beginChange, ← Multiset.coe_add,
    ← Multiset.singleton_add, Multiset.coe_singleton]
  abel

/-- What is at a place of a list, and what is left without it. -/
theorem coe_eq_cons_eraseIdx {α : Type} {l : List α} {i : Nat} {x : α} (h : l[i]? = some x) :
    (l : Multiset α) = x ::ₘ ↑(l.eraseIdx i) := by
  obtain ⟨hi, rfl⟩ := List.getElem?_eq_some_iff.mp h
  exact (Multiset.coe_eq_coe.mpr (List.getElem_cons_eraseIdx_perm hi)).symm

/-- A worker that does something else gives up its request for another one. -/
theorem coe_filterMap_set {ws : List Worker} {w : Nat} {old : Worker}
    (h : ws[w]? = some old) (new : Worker) :
    ∃ others : Multiset Request,
      (ws.filterMap Worker.request? : Multiset Request) = ↑old.request?.toList + others
      ∧ ((ws.set w new).filterMap Worker.request? : Multiset Request)
          = ↑new.request?.toList + others := by
  obtain ⟨hw, rfl⟩ := List.getElem?_eq_some_iff.mp h
  have hcons : ∀ x : Worker, ((x :: ws.eraseIdx w).filterMap Worker.request? : Multiset Request)
      = ↑x.request?.toList + ↑((ws.eraseIdx w).filterMap Worker.request?) := fun x => by
    cases hx : x.request? with
    | none => simp [hx]
    | some r => simp [hx]
  refine ⟨(ws.eraseIdx w).filterMap Worker.request?, ?_, ?_⟩
  · rw [← hcons]
    exact Multiset.coe_eq_coe.mpr ((List.getElem_cons_eraseIdx_perm hw).symm.filterMap _)
  · rw [← hcons]
    exact Multiset.coe_eq_coe.mpr ((List.set_perm_cons_eraseIdx hw new).filterMap _)

private theorem sendChange_effect {resolve : Resolver} {s s' : State} {i : Nat}
    (h : s.sendChange i = some s') : Effect resolve s s' (.send i) := by
  obtain ⟨x, hx, h⟩ := Option.bind_eq_some_iff.mp h
  cases h
  have hflight := coe_eq_cons_eraseIdx hx
  by_cases hd : s.dispatching = true
  · simp only [send, if_pos hd]
    refine .moved rfl rfl (Multiset.le_iff_exists_add.mpr ⟨0, ?_⟩) (le_refl _) rfl rfl
    simp only [carried, waiting, requests, hflight, ← Multiset.coe_add,
      ← Multiset.singleton_add, Multiset.coe_singleton]
    abel
  · simp only [send, if_neg hd]
    refine .moved rfl rfl (Multiset.le_iff_exists_add.mpr ⟨{x}, ?_⟩) (le_refl _) rfl rfl
    simp only [carried, waiting, requests, hflight, ← Multiset.singleton_add]
    abel

private theorem receive_effect {resolve : Resolver} {s s' : State} (h : s.receive = some s') :
    Effect resolve s s' .receive := by
  unfold receive at h
  cases hc : s.changes with
  | nil => simp [hc] at h
  | cons x changes =>
    by_cases hd : s.dispatching = true
    · simp only [hc, if_pos hd] at h
      cases h
      refine .moved rfl rfl (Multiset.le_iff_exists_add.mpr ⟨s.pending.toList, ?_⟩) (le_refl _)
        rfl rfl
      simp only [carried, waiting, requests, hc, Option.toList_some, ← Multiset.cons_coe,
        Multiset.coe_nil, ← Multiset.singleton_add]
      abel
    · simp [hc, hd] at h

private theorem timeout_effect {resolve : Resolver} {s s' : State} (h : s.timeout = some s') :
    Effect resolve s s' .timeout := by
  obtain ⟨x, hx, h⟩ := Option.bind_eq_some_iff.mp h
  by_cases hgone : s.workers.all (· == .gone) = true
  · rw [if_pos hgone] at h
    cases h
    refine .moved rfl rfl (Multiset.le_iff_exists_add.mpr
      ⟨s.changes + s.pending.toList, ?_⟩) (le_refl _) rfl rfl
    simp only [carried, waiting, requests, Option.toList_none, Multiset.coe_nil]
    abel
  · rw [if_neg hgone] at h
    cases h
    refine .queued x rfl ?_ ?_ rfl rfl
    · simp only [carried, waiting, requests, hx, Option.toList_none, Option.toList_some,
        Multiset.coe_nil, Multiset.map_add, ← Multiset.coe_add, Multiset.coe_singleton,
        Multiset.map_singleton]
      abel
    · simp only [requests, ← Multiset.coe_add, Multiset.coe_singleton, ← Multiset.singleton_add]
      abel

/-- A worker that takes a request was idle, and nothing else changes. -/
theorem takeWork_eq {s s' : State} {w : Nat} (h : s.takeWork w = some s') :
    ∃ request work, s.workers[w]? = some .idle ∧ s.work = request :: work
      ∧ s' = { s with work, workers := s.workers.set w (.busy request) } := by
  unfold takeWork at h
  split at h
  next request work hidle hwork =>
    cases h
    exact ⟨request, work, hidle, hwork, rfl⟩
  next => cases h

/-- Taking work moves a request and changes none. -/
theorem takeWork_requests {s s' : State} {w : Nat} (h : s.takeWork w = some s') :
    s'.requests = s.requests := by
  obtain ⟨request, work, hidle, hwork, rfl⟩ := takeWork_eq h
  obtain ⟨others, hold, hnew⟩ := coe_filterMap_set hidle (.busy request)
  simp only [requests, hwork, hold, hnew, Worker.request?, Option.toList_none,
    Option.toList_some, ← Multiset.cons_coe, Multiset.coe_nil, ← Multiset.singleton_add]
  abel

private theorem takeWork_effect {resolve : Resolver} {s s' : State} {w : Nat}
    (h : s.takeWork w = some s') : Effect resolve s s' (.take w) := by
  have hrequests := takeWork_requests h
  obtain ⟨request, work, -, -, rfl⟩ := takeWork_eq h
  refine .moved rfl rfl (le_of_eq ?_) (le_of_eq hrequests) rfl rfl
  rw [carried, carried, hrequests]
  rfl

/-- A result that does not pass changes nothing; one that passes belongs to the current
text, and is the next call of the sink. -/
theorem complete_cases (s : State) (request : Request)
    (outcome : Except HighlightFault (List Span)) :
    s.complete request outcome = s
      ∨ request.snapshot.generation = s.generation
        ∧ ∃ gate, s.complete request outcome
          = { s with gate, calls := ⟨request.sequence, outcome⟩ :: s.calls } := by
  cases outcome with
  | ok spans =>
    simp only [complete]
    cases hpass : s.gate.pass request.sequence request.snapshot.generation s.generation with
    | error stale => exact .inl rfl
    | ok gate => exact .inr ⟨Gate.generation_of_pass hpass, gate, rfl⟩
  | error fault =>
    simp only [complete]
    cases hcheck : s.gate.check request.sequence request.snapshot.generation s.generation with
    | error stale => exact .inl rfl
    | ok u => exact .inr ⟨Gate.generation_of_check hcheck, s.gate, rfl⟩

/-- A worker that is done takes its result to the gate and gives up its request. It is
free again, unless the sink broke off under it. -/
theorem finishWork_eq {resolve : Resolver} {s s' : State} {w : Nat} {sinkBreaks : Bool}
    (h : s.finishWork resolve sinkBreaks w = some s') :
    ∃ request new, s.workers[w]? = some (.busy request) ∧ new.request? = none
      ∧ (sinkBreaks = false → new = .idle)
      ∧ s' = { s.complete request (resolve request.snapshot.text) with
                workers := s.workers.set w new } := by
  unfold finishWork at h
  split at h
  next request hworker =>
    cases h
    refine ⟨request, _, hworker, ?_, fun hsink => ?_, rfl⟩
    · split
      next => rfl
      next => rfl
    · rw [hsink]
      rfl
  next => cases h

/-- A worker that is done changes nothing but itself, the gate and the calls. -/
theorem finishWork_frame {resolve : Resolver} {s s' : State} {w : Nat} {sinkBreaks : Bool}
    (h : s.finishWork resolve sinkBreaks w = some s') :
    ∃ request new gate calls, s.workers[w]? = some (.busy request) ∧ new.request? = none
      ∧ s' = { s with workers := s.workers.set w new, gate, calls } := by
  obtain ⟨request, new, hworker, hfree, -, rfl⟩ := finishWork_eq h
  rcases complete_cases s request (resolve request.snapshot.text) with
    hsame | ⟨-, gate, hcall⟩
  · rw [hsame]
    exact ⟨request, new, s.gate, s.calls, hworker, hfree, rfl⟩
  · rw [hcall]
    exact ⟨request, new, gate, _, hworker, hfree, rfl⟩

/-- A worker that finishes gives up its own request. -/
theorem requests_of_done {s : State} {w : Nat} {request : Request} {new : Worker}
    (hworker : s.workers[w]? = some (.busy request)) (hfree : new.request? = none) :
    s.requests
      = request ::ₘ (↑s.work + ↑((s.workers.set w new).filterMap Worker.request?)) := by
  obtain ⟨others, hold, hset⟩ := coe_filterMap_set hworker new
  rw [hfree] at hset
  simp only [requests, hold, hset, Worker.request?, Option.toList_none, Option.toList_some,
    Multiset.coe_nil, Multiset.coe_singleton, ← Multiset.singleton_add]
  abel

private theorem finishWork_effect {resolve : Resolver} {s s' : State} {w : Nat} {sinkBreaks : Bool}
    (h : s.finishWork resolve sinkBreaks w = some s') :
    Effect resolve s s' (.finish w sinkBreaks) := by
  obtain ⟨request, new, hworker, hfree, -, rfl⟩ := finishWork_eq h
  -- Whatever the gate says, the worker has given up its request.
  have hrequests := requests_of_done hworker hfree
  have hcarried : s.carried = request.snapshot ::ₘ (s.waiting + Multiset.map Request.snapshot
      (↑s.work + ↑((s.workers.set w new).filterMap Worker.request?))) := by
    rw [carried, hrequests, Multiset.map_cons, Multiset.add_cons]
  rcases complete_cases s request (resolve request.snapshot.text) with
    hsame | ⟨hcurrent, gate, hcall⟩
  · rw [hsame]
    refine .moved rfl rfl ?_ ?_ rfl rfl
    · rw [hcarried]
      exact Multiset.le_cons_self _ _
    · rw [hrequests]
      exact Multiset.le_cons_self _ _
  · rw [hcall]
    exact .called w sinkBreaks request hworker hcurrent rfl hcarried hrequests rfl rfl

/-- What an action does. -/
theorem step_effect {resolve : Resolver} {a : Action} {s s' : State}
    (h : s.step resolve a = some s') : Effect resolve s s' a := by
  cases a with
  | change text =>
    cases h
    exact .changed text rfl (carried_beginChange s text) rfl rfl rfl
  | send i => exact sendChange_effect h
  | receive => exact receive_effect h
  | timeout => exact timeout_effect h
  | take w => exact takeWork_effect h
  | finish w sinkBreaks => exact finishWork_effect h

end State

end Classdesk.Highlight
