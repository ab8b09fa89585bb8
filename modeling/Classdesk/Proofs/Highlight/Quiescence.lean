import Classdesk.Proofs.Highlight.Freshness
import Mathlib.Data.List.Range

/-!
# The latest text wins

`latest_text_wins`: if callers change the text one after another and the sink never
breaks off, then whenever the highlighter has come to rest, the last thing its sink was
shown is what the resolver says of the latest text.

Where the latest snapshot is, is said by one list. The trail of a run is the snapshots
that were dispatched, then the one waited with, then those sent, then the one in flight.
Changes come in at its end, a timeout moves the border inside it, and the only thing ever
dropped is a snapshot with a later one behind it. So

> `Orderly.newest`: the trail ends with the latest snapshot, and
> `Orderly.trail`: it is a part of what was submitted, in the same order.

At rest the trail is what was dispatched. A dispatched request for the current text is
with a worker until it is shown, because the gate has nothing against it
(`complete_current`).
-/

namespace Classdesk.Highlight.State

variable {resolve : Resolver} {workers : Nat} {actions past : List Action} {a : Action}
  {s s' : State}

/-! ## Runs without overlap -/

/-- Changes are made one after another: none begins while another is in flight. -/
def OneAtATime (resolve : Resolver) (workers : Nat) (actions : List Action) : Prop :=
  ∀ past text after s, actions = past ++ .change text :: after →
    run resolve workers past = some s → s.inFlight = []

/-- The sink never breaks off. -/
def SinkHolds (actions : List Action) : Prop := ∀ w, Action.finish w true ∉ actions

/-- Nothing is on its way, and no worker is busy. -/
structure Quiet (s : State) : Prop where
  inFlight : s.inFlight = []
  changes : s.changes = []
  pending : s.pending = none
  work : s.work = []
  free : ∀ w ∈ s.workers, w.request? = none

/-- The requests that are queued from a state on, in order. Only what is new at the end
of the queue counts; a request that is taken leaves at its front. -/
def dispatchedFrom (resolve : Resolver) : State → List Action → List Request
  | _, [] => []
  | s, a :: actions =>
    match s.step resolve a with
    | some s' => s'.work.drop s.work.length ++ dispatchedFrom resolve s' actions
    | none => []

/-- The requests that were dispatched in a run, in order. -/
def dispatched (resolve : Resolver) (workers : Nat) (actions : List Action) : List Request :=
  dispatchedFrom resolve (start workers) actions

private theorem OneAtATime.of_snoc (h : OneAtATime resolve workers (past ++ [a])) :
    OneAtATime resolve workers past := by
  intro before text after s hpast hrun
  refine h before text (after ++ [a]) s ?_ hrun
  rw [hpast, List.append_assoc, List.cons_append]

private theorem SinkHolds.of_snoc (h : SinkHolds (past ++ [a])) : SinkHolds past :=
  fun w hw => h w (List.mem_append_left _ hw)

theorem dispatchedFrom_append {m : State} (more : List Action)
    (hpast : past.foldlM (fun s a => s.step resolve a) s = some m) :
    dispatchedFrom resolve s (past ++ more)
      = dispatchedFrom resolve s past ++ dispatchedFrom resolve m more := by
  induction past generalizing s with
  | nil =>
    cases hpast
    rfl
  | cons b past ih =>
    rw [List.foldlM_cons] at hpast
    obtain ⟨t, hb, hpast⟩ := Option.bind_eq_some_iff.mp hpast
    simp only [List.cons_append, dispatchedFrom, hb, ih hpast, List.append_assoc]

/-- A step dispatches what it adds to the work. -/
theorem dispatched_snoc (hpast : run resolve workers past = some s)
    (hstep : s.step resolve a = some s') :
    dispatched resolve workers (past ++ [a])
      = dispatched resolve workers past ++ s'.work.drop s.work.length := by
  rw [dispatched, dispatchedFrom_append [a] hpast]
  simp only [dispatchedFrom, hstep, List.append_nil]
  rfl

/-! ## What the steps do -/

/-- Sending moves one snapshot from its caller to the channel. -/
theorem sendChange_eq {i : Nat} (h : s.sendChange i = some s') (hrunning : s.dispatching = true) :
    ∃ x, s.inFlight[i]? = some x
      ∧ s' = { s with changes := s.changes ++ [x], inFlight := s.inFlight.eraseIdx i } := by
  obtain ⟨x, hx, h⟩ := Option.bind_eq_some_iff.mp h
  cases h
  refine ⟨x, hx, ?_⟩
  rw [send, if_pos hrunning]

/-- A change that is sent reaches the dispatcher or nobody. -/
theorem sendChange_cases {i : Nat} (h : s.sendChange i = some s') :
    ∃ x changes, s.inFlight[i]? = some x ∧ (changes = s.changes ++ [x] ∨ changes = s.changes)
      ∧ s' = { s with changes, inFlight := s.inFlight.eraseIdx i } := by
  obtain ⟨x, hx, h⟩ := Option.bind_eq_some_iff.mp h
  cases h
  by_cases hrunning : s.dispatching = true
  · rw [send, if_pos hrunning]
    exact ⟨x, _, hx, .inl rfl, rfl⟩
  · rw [send, if_neg hrunning]
    exact ⟨x, _, hx, .inr rfl, rfl⟩

/-- Receiving makes the first snapshot of the channel the pending one. -/
theorem receive_eq (h : s.receive = some s') :
    ∃ x changes, s.changes = x :: changes ∧ s' = { s with changes, pending := some x } := by
  unfold receive at h
  split at h
  next => cases h
  next x changes hchanges =>
    split at h
    next =>
      cases h
      exact ⟨x, changes, hchanges, rfl⟩
    next => cases h

/-- With a worker left, a timeout makes a request of the snapshot that was waited with. -/
theorem timeout_eq (h : s.timeout = some s') (hstaffed : ∃ w ∈ s.workers, w ≠ .gone) :
    ∃ x, s.pending = some x
      ∧ s' = { s with
                pending := none
                nextSequence := s.nextSequence + 1
                work := s.work ++ [⟨s.nextSequence, x⟩] } := by
  obtain ⟨x, hx, h⟩ := Option.bind_eq_some_iff.mp h
  have hsome : ¬ s.workers.all (· == .gone) = true := by
    obtain ⟨w, hw, hne⟩ := hstaffed
    intro hall
    exact hne (eq_of_beq (List.all_eq_true.mp hall w hw))
  rw [if_neg hsome] at h
  cases h
  exact ⟨x, hx, rfl⟩

/-- Only a timeout dispatches anything. -/
theorem nothing_dispatched (hstep : s.step resolve a = some s')
    (hother : a ≠ .timeout) : s'.work.drop s.work.length = [] := by
  cases a with
  | change text =>
    cases hstep
    exact List.drop_length
  | send i =>
    obtain ⟨x, changes, -, -, rfl⟩ := sendChange_cases hstep
    exact List.drop_length
  | receive =>
    obtain ⟨x, changes, -, rfl⟩ := receive_eq hstep
    exact List.drop_length
  | timeout => exact absurd rfl hother
  | take w =>
    obtain ⟨request, work, -, hwork, rfl⟩ := takeWork_eq hstep
    rw [hwork]
    exact List.drop_eq_nil_of_le (Nat.le_succ _)
  | finish w sinkBreaks =>
    obtain ⟨request, new, gate, calls, -, -, rfl⟩ := finishWork_frame hstep
    exact List.drop_length

/-- A result for the current text passes if everything applied has a lower number. -/
theorem complete_current {request : Request} (outcome : Except HighlightFault (List Span))
    (hcurrent : request.snapshot.generation = s.generation)
    (hnew : ∀ n, s.gate.lastApplied = some n → n < request.sequence) :
    (s.complete request outcome).calls = ⟨request.sequence, outcome⟩ :: s.calls := by
  have hcheck : s.gate.check request.sequence request.snapshot.generation s.generation
      = .ok () := by
    have hfresh : s.gate.lastApplied.any (request.sequence ≤ ·) = false := by
      cases hlast : s.gate.lastApplied with
      | none => rfl
      | some n =>
        have hn := hnew n hlast
        simp only [Option.any_some, decide_eq_false_iff_not]
        omega
    simp [Gate.check, hfresh, hcurrent]
  cases outcome with
  | ok spans => simp [complete, Gate.pass, hcheck, Except.map]
  | error fault => simp [complete, hcheck]

/-- The gate only remembers results that were shown. -/
theorem complete_lastApplied {request : Request} {outcome : Except HighlightFault (List Span)}
    {n : Nat} (h : (s.complete request outcome).gate.lastApplied = some n) :
    s.gate.lastApplied = some n
      ∨ (s.complete request outcome).calls = ⟨n, outcome⟩ :: s.calls := by
  cases outcome with
  | ok spans =>
    simp only [complete, Gate.pass] at h ⊢
    cases hcheck : s.gate.check request.sequence request.snapshot.generation s.generation with
    | error stale =>
      simp only [hcheck, Except.map] at h
      exact .inl h
    | ok u =>
      simp only [hcheck, Except.map, Option.some.injEq] at h ⊢
      rw [h]
      exact .inr rfl
  | error fault =>
    simp only [complete] at h
    cases hcheck : s.gate.check request.sequence request.snapshot.generation s.generation with
    | error stale =>
      simp only [hcheck] at h
      exact .inl h
    | ok u =>
      simp only [hcheck] at h
      exact .inl h

/-! ## The trail -/

/-- The snapshots that are not yet dispatched, the oldest first. -/
def queue (s : State) : List Snapshot := s.pending.toList ++ s.changes ++ s.inFlight

/-- What was dispatched, and what is on its way to be. -/
def trail (log : List Request) (s : State) : List Snapshot :=
  log.map Request.snapshot ++ s.queue

/-- The invariant of the way to the workers, when `log` was dispatched. -/
structure Orderly (log : List Request) (past : List Action) (s : State) : Prop where
  alone : s.inFlight.length ≤ 1
  running : s.dispatching = true
  staffed : s.workers ≠ []
  present : ∀ w ∈ s.workers, w ≠ .gone
  numbered : log.map Request.sequence = List.range' 1 log.length
  next : s.nextSequence = log.length + 1
  trail : (s.trail log).Sublist (submitted past)
  newest : (s.trail log).getLast? = (submitted past).getLast?

private theorem orderly_start : Orderly [] [] (start workers) := by
  refine ⟨by simp [start], rfl, ?_, ?_, rfl, rfl, ?_, rfl⟩
  · intro h
    have hlen : max workers 1 = 0 := by
      simpa [start] using congrArg List.length h
    omega
  · intro w hw
    rw [List.eq_of_mem_replicate hw]
    simp
  · exact List.Sublist.refl _

/-- There is a worker to take a request. -/
theorem Orderly.hasWorker {log : List Request} (h : Orderly log past s) :
    ∃ w ∈ s.workers, w ≠ .gone := by
  obtain ⟨w, hw⟩ := List.exists_mem_of_ne_nil _ h.staffed
  exact ⟨w, hw, h.present w hw⟩

theorem Orderly.other {log : List Request} (h : Orderly log past s) (htext : a.text? = none) :
    Orderly log (past ++ [a]) s :=
  { h with
    trail := submitted_other past htext ▸ h.trail
    newest := submitted_other past htext ▸ h.newest }

/-- A change comes in at the end of the trail. -/
theorem Orderly.change {log : List Request} (h : Orderly log past s)
    (hcounted : (submitted past).length = s.generation) (halone : s.inFlight = [])
    (text : String) : Orderly log (past ++ [.change text]) (s.beginChange text) := by
  have htrail : (s.beginChange text).trail log
      = s.trail log ++ [⟨s.generation + 1, text⟩] := by
    simp [State.trail, queue, beginChange]
  refine ⟨by simp [beginChange, halone], h.running, h.staffed, h.present, h.numbered, h.next,
    ?_, ?_⟩
  · rw [htrail, submitted_change, hcounted]
    exact h.trail.append (List.Sublist.refl _)
  · rw [htrail, submitted_change, hcounted, List.getLast?_concat, List.getLast?_concat]

/-- The one change in flight is sent: it stays where it is in the trail. -/
theorem Orderly.send {log : List Request} (h : Orderly log past s) {i : Nat}
    (hsend : s.sendChange i = some s') : Orderly log past s' := by
  obtain ⟨x, hx, rfl⟩ := sendChange_eq hsend h.running
  have hone : s.inFlight = [x] ∧ i = 0 := by
    obtain ⟨hi, hget⟩ := List.getElem?_eq_some_iff.mp hx
    have hlen := h.alone
    obtain ⟨y, hy⟩ := List.length_eq_one_iff.mp (show s.inFlight.length = 1 by omega)
    have hzero : i = 0 := by omega
    subst hzero
    simp only [hy, List.getElem_cons_zero] at hget
    exact ⟨by rw [hy, hget], rfl⟩
  obtain ⟨hflight, rfl⟩ := hone
  have hqueue : s.pending.toList ++ (s.changes ++ [x]) ++ s.inFlight.eraseIdx 0 = s.queue := by
    simp [queue, hflight]
  exact ⟨by simp [hflight], h.running, h.staffed, h.present, h.numbered, h.next,
    by simpa only [State.trail, queue, hqueue] using h.trail,
    by simpa only [State.trail, queue, hqueue] using h.newest⟩

/-- What was waited with is dropped, with a later snapshot behind it. -/
theorem Orderly.receive {log : List Request} (h : Orderly log past s)
    (hreceive : s.receive = some s') : Orderly log past s' := by
  obtain ⟨x, changes, hchanges, rfl⟩ := receive_eq hreceive
  have hold : s.trail log = log.map Request.snapshot
      ++ (s.pending.toList ++ (x :: (changes ++ s.inFlight))) := by
    simp [State.trail, queue, hchanges]
  have hnew : State.trail log { s with changes, pending := some x }
      = log.map Request.snapshot ++ (x :: (changes ++ s.inFlight)) := by
    simp [State.trail, queue]
  refine ⟨h.alone, h.running, h.staffed, h.present, h.numbered, h.next, ?_, ?_⟩
  · rw [hnew]
    refine List.Sublist.trans ?_ (hold ▸ h.trail)
    exact (List.Sublist.refl _).append (List.sublist_append_right _ _)
  · have hlast : ∀ front : List Snapshot, (front ++ x :: (changes ++ s.inFlight)).getLast?
        = (x :: (changes ++ s.inFlight)).getLast? := fun front =>
      List.getLast?_append_of_ne_nil front (by simp)
    rw [hnew, ← h.newest, hold, ← List.append_assoc, hlast, hlast]

/-- What was waited with is dispatched: the trail is the same. -/
theorem Orderly.timeout {log : List Request} (h : Orderly log past s)
    (htimeout : s.timeout = some s') :
    Orderly (log ++ s'.work.drop s.work.length) past s' := by
  obtain ⟨x, hx, rfl⟩ := timeout_eq htimeout h.hasWorker
  simp only [List.drop_left']
  have htrail : State.trail (log ++ [⟨s.nextSequence, x⟩])
      { s with
        pending := none
        nextSequence := s.nextSequence + 1
        work := s.work ++ [⟨s.nextSequence, x⟩] } = s.trail log := by
    simp [State.trail, queue, hx]
  refine ⟨h.alone, h.running, h.staffed, h.present, ?_, ?_, ?_, ?_⟩
  · rw [List.map_append, h.numbered, List.length_append, List.length_singleton,
      List.range'_concat, h.next]
    simp [Nat.add_comm]
  · simp [h.next]
  · rw [htrail]
    exact h.trail
  · rw [htrail]
    exact h.newest

/-- What workers do leaves the trail alone. -/
theorem Orderly.worked {log : List Request} (h : Orderly log past s) (w : Nat) {new : Worker}
    (hpresent : new ≠ .gone) {work : List Request} {gate : Gate} {calls : List SinkCall} :
    Orderly log past { s with work, workers := s.workers.set w new, gate, calls } := by
  refine ⟨h.alone, h.running, ?_, fun v hv => ?_, h.numbered, h.next, h.trail, h.newest⟩
  · simpa using h.staffed
  · rcases List.mem_or_eq_of_mem_set hv with hmem | rfl
    · exact h.present v hmem
    · exact hpresent

theorem Orderly.step {log : List Request} (h : Orderly log past s)
    (hcounted : (submitted past).length = s.generation)
    (halone : ∀ text, a = .change text → s.inFlight = []) (hsink : ∀ w, a ≠ .finish w true)
    (hstep : s.step resolve a = some s') :
    Orderly (log ++ s'.work.drop s.work.length) (past ++ [a]) s' := by
  cases a with
  | change text =>
    rw [nothing_dispatched hstep (by simp), List.append_nil]
    cases hstep
    exact h.change hcounted (halone text rfl) text
  | send i =>
    rw [nothing_dispatched hstep (by simp), List.append_nil]
    exact (h.send hstep).other rfl
  | receive =>
    rw [nothing_dispatched hstep (by simp), List.append_nil]
    exact (h.receive hstep).other rfl
  | timeout => exact (h.timeout hstep).other rfl
  | take w =>
    rw [nothing_dispatched hstep (by simp), List.append_nil]
    obtain ⟨request, work, -, -, rfl⟩ := takeWork_eq hstep
    exact (h.worked w (by simp)).other rfl
  | finish w sinkBreaks =>
    rw [nothing_dispatched hstep (by simp), List.append_nil]
    have hholds : sinkBreaks = false := by
      cases sinkBreaks with
      | false => rfl
      | true => exact absurd rfl (hsink w)
    obtain ⟨request, new, -, -, hidle, rfl⟩ := finishWork_eq hstep
    have hpresent : new ≠ .gone := by
      rw [hidle hholds]
      simp
    rcases complete_cases s request (resolve request.snapshot.text) with
      hsame | ⟨-, gate, hcall⟩
    · rw [hsame]
      exact (h.worked w hpresent).other rfl
    · rw [hcall]
      exact (h.worked w hpresent).other rfl

/-! ## What becomes of a request -/

/-- The invariant of the way from the workers to the sink, when `log` was dispatched. -/
structure Shown (resolve : Resolver) (log : List Request) (s : State) : Prop where
  logged : ∀ r ∈ s.requests, r ∈ log
  applied : ∀ n, s.gate.lastApplied = some n → ∃ c ∈ s.calls, c.sequence = n
  /-- A request for the current text is on its way, or it is what the sink shows. -/
  current : ∀ r ∈ log, r.snapshot.generation = s.generation →
    r ∈ s.requests ∨ s.calls.head? = some ⟨r.sequence, resolve r.snapshot.text⟩

theorem shown_start : Shown resolve [] (start workers) := by
  refine ⟨fun r hr => ?_, fun n hn => ?_, fun r hr => ?_⟩
  · rw [requests_start] at hr
    exact absurd hr (Multiset.notMem_zero r)
  · cases hn
  · cases hr

/-- Generations count the changes. -/
theorem map_generation_submitted (past : List Action) :
    (submitted past).map Snapshot.generation = List.range' 1 (submitted past).length := by
  simp [submitted, Function.comp_def]

/-- What requests need on their way to the sink: a dispatcher and a worker, and no two of
them for one text or any for a later one. -/
structure Accounted (log : List Request) (s : State) : Prop where
  running : s.dispatching = true
  hasWorker : ∃ w ∈ s.workers, w ≠ .gone
  generation_le : ∀ r ∈ log, r.snapshot.generation ≤ s.generation
  eq_of_generation : ∀ r ∈ log, ∀ q ∈ log,
    r.snapshot.generation = q.snapshot.generation → r = q

/-- Generations tell submitted snapshots apart. -/
theorem nodup_generation {xs : List Snapshot} (h : (xs : Multiset Snapshot) ≤ submitted past) :
    (xs.map Snapshot.generation).Nodup := by
  have hgenerations := Multiset.map_le_map (f := Snapshot.generation) h
  rw [Multiset.map_coe, Multiset.map_coe, map_generation_submitted] at hgenerations
  exact Multiset.coe_nodup.mp
    (Multiset.nodup_of_le hgenerations (Multiset.coe_nodup.mpr List.nodup_range'))

/-- Requests for different submitted snapshots are accounted for. -/
theorem Accounted.of_submitted {log : List Request} (hrunning : s.dispatching = true)
    (hworker : ∃ w ∈ s.workers, w ≠ .gone)
    (hpart : (log.map Request.snapshot : Multiset Snapshot) ≤ submitted past)
    (hcounted : (submitted past).length = s.generation) : Accounted log s := by
  refine ⟨hrunning, hworker, fun r hr => ?_, fun r hr q hq hsame => ?_⟩
  · have hmem : r.snapshot ∈ (submitted past : Multiset Snapshot) :=
      Multiset.mem_of_le hpart (List.mem_map_of_mem hr)
    exact hcounted ▸ generation_le_length_submitted hmem
  · have hnodup := nodup_generation hpart
    rw [List.map_map] at hnodup
    exact List.inj_on_of_nodup_map hnodup hr hq hsame

/-- With one change at a time, requests have what they need on their way to the sink. -/
theorem Orderly.accounted {log : List Request} (h : Orderly log past s)
    (hcounted : (submitted past).length = s.generation) : Accounted log s :=
  .of_submitted h.running h.hasWorker
    ((List.sublist_append_left _ _).trans h.trail).subperm hcounted

/-- A step that leaves the requests, the gate and the sink alone. -/
theorem Shown.kept {log : List Request} (h : Shown resolve log s)
    (hgeneration : s'.generation = s.generation) (hrequests : s'.requests = s.requests)
    (hgate : s'.gate = s.gate) (hcalls : s'.calls = s.calls) : Shown resolve log s' := by
  refine ⟨?_, ?_, ?_⟩
  · rw [hrequests]
    exact h.logged
  · rw [hgate, hcalls]
    exact h.applied
  · rw [hgeneration, hrequests, hcalls]
    exact h.current

/-- A change makes everything that was dispatched old. -/
theorem Shown.change {log : List Request} (h : Shown resolve log s) (ha : Accounted log s)
    (text : String) : Shown resolve log (s.beginChange text) := by
  refine ⟨h.logged, h.applied, fun r hr hcurrent => ?_⟩
  have hle := ha.generation_le r hr
  have hnew : r.snapshot.generation = s.generation + 1 := hcurrent
  omega

/-- A new request is on its way. -/
theorem Shown.timeout {log : List Request} (h : Shown resolve log s) (ha : Accounted log s)
    (htimeout : s.timeout = some s') :
    Shown resolve (log ++ s'.work.drop s.work.length) s' := by
  obtain ⟨x, hx, rfl⟩ := timeout_eq htimeout ha.hasWorker
  simp only [List.drop_left']
  have hrequests : requests { s with
        pending := none
        nextSequence := s.nextSequence + 1
        work := s.work ++ [⟨s.nextSequence, x⟩] } = ⟨s.nextSequence, x⟩ ::ₘ s.requests := by
    simp only [requests, ← Multiset.coe_add, Multiset.coe_singleton, ← Multiset.singleton_add]
    abel
  refine ⟨fun r hr => ?_, h.applied, fun r hr hcurrent => ?_⟩
  · rw [hrequests, Multiset.mem_cons] at hr
    rcases hr with rfl | hr
    · exact List.mem_append_right _ (List.mem_singleton_self _)
    · exact List.mem_append_left _ (h.logged r hr)
  · rw [hrequests]
    rcases List.mem_append.mp hr with hr | hr
    · rcases h.current r hr hcurrent with hway | hshown
      · exact .inl (Multiset.mem_cons_of_mem hway)
      · exact .inr hshown
    · rw [List.mem_singleton.mp hr]
      exact .inl (Multiset.mem_cons_self _ _)

/-- What the gate remembers after a result is still what the sink was called for. -/
theorem Shown.applied_complete {log : List Request} (h : Shown resolve log s) (request : Request)
    (outcome : Except HighlightFault (List Span)) {n : Nat}
    (hn : (s.complete request outcome).gate.lastApplied = some n) :
    ∃ c ∈ (s.complete request outcome).calls, c.sequence = n := by
  rcases complete_lastApplied hn with hold | hcall
  · obtain ⟨c, hc, hseq⟩ := h.applied n hold
    rcases complete_cases s request outcome with hsame | ⟨-, gate, hnew⟩
    · rw [hsame]
      exact ⟨c, hc, hseq⟩
    · rw [hnew]
      exact ⟨c, List.mem_cons_of_mem _ hc, hseq⟩
  · rw [hcall]
    exact ⟨_, List.mem_cons_self .., rfl⟩

/-- A worker is done. If its request is for the current text, the gate lets it pass. -/
theorem Shown.finish {log : List Request} (h : Shown resolve log s) (ha : Accounted log s)
    (hsound : Sound past s) {w : Nat} {sinkBreaks : Bool}
    (hfinish : s.finishWork resolve sinkBreaks w = some s') : Shown resolve log s' := by
  obtain ⟨request, new, hworker, hfree, -, rfl⟩ := finishWork_eq hfinish
  have hmem : request ∈ s.requests := mem_requests_of_busy hworker
  have hrequests := requests_of_done hworker hfree
  have happlied := fun n => h.applied_complete request (resolve request.snapshot.text) (n := n)
  by_cases hcurrent : request.snapshot.generation = s.generation
  · -- Everything the gate remembers was called, and so has a lower number.
    have hcall := complete_current (resolve request.snapshot.text) hcurrent fun n hn => by
      obtain ⟨c, hc, hseq⟩ := h.applied n hn
      exact hseq ▸ hsound.latest request hmem hcurrent c hc
    rcases complete_cases s request (resolve request.snapshot.text) with
      hsame | ⟨-, gate, hnew⟩
    · rw [hsame] at hcall
      exact absurd (congrArg List.length hcall) (by simp)
    · refine ⟨fun r hr => ?_, happlied, fun r hr hagain => ?_⟩
      · refine h.logged r (hrequests ▸ Multiset.mem_cons_of_mem ?_)
        rw [hnew] at hr
        exact hr
      · -- Generations tell requests apart, so a current one is the one that was called.
        rw [hnew] at hagain
        have hsame : r = request := ha.eq_of_generation r hr request (h.logged _ hmem)
          ((show r.snapshot.generation = s.generation from hagain).trans hcurrent.symm)
        subst hsame
        refine .inr ?_
        show (s.complete r (resolve r.snapshot.text)).calls.head? = _
        rw [hcall]
        rfl
  · -- An old request changes nothing, and it was not the current one that left.
    rcases complete_cases s request (resolve request.snapshot.text) with
      hsame | ⟨hnow, -⟩
    · rw [hsame] at happlied ⊢
      refine ⟨fun r hr => ?_, happlied, fun r hr hagain => ?_⟩
      · exact h.logged r (hrequests ▸ Multiset.mem_cons_of_mem hr)
      · rcases h.current r hr hagain with hway | hshown
        · rw [hrequests, Multiset.mem_cons] at hway
          rcases hway with rfl | hway
          · exact absurd hagain hcurrent
          · exact .inl hway
        · exact .inr hshown
    · exact absurd hnow hcurrent

theorem Shown.step {log : List Request} (h : Shown resolve log s) (ha : Accounted log s)
    (hsound : Sound past s) (hstep : s.step resolve a = some s') :
    Shown resolve (log ++ s'.work.drop s.work.length) s' := by
  cases a with
  | change text =>
    rw [nothing_dispatched hstep (by simp), List.append_nil]
    cases hstep
    exact h.change ha text
  | send i =>
    rw [nothing_dispatched hstep (by simp), List.append_nil]
    obtain ⟨x, -, rfl⟩ := sendChange_eq hstep ha.running
    exact h.kept rfl rfl rfl rfl
  | receive =>
    rw [nothing_dispatched hstep (by simp), List.append_nil]
    obtain ⟨x, changes, -, rfl⟩ := receive_eq hstep
    exact h.kept rfl rfl rfl rfl
  | timeout => exact h.timeout ha hstep
  | take w =>
    rw [nothing_dispatched hstep (by simp), List.append_nil]
    have hrequests := takeWork_requests hstep
    obtain ⟨request, work, -, -, rfl⟩ := takeWork_eq hstep
    exact h.kept rfl hrequests rfl rfl
  | finish w sinkBreaks =>
    rw [nothing_dispatched hstep (by simp), List.append_nil]
    exact h.finish ha hsound hstep

/-! ## At rest -/

/-- Both invariants hold in every run without overlap. -/
theorem orderly_and_shown_run (hrun : run resolve workers actions = some s)
    (halone : OneAtATime resolve workers actions) (hsink : SinkHolds actions) :
    Orderly (dispatched resolve workers actions) actions s
      ∧ Shown resolve (dispatched resolve workers actions) s := by
  refine run_induction (P := fun actions s => OneAtATime resolve workers actions →
    SinkHolds actions → Orderly (dispatched resolve workers actions) actions s
      ∧ Shown resolve (dispatched resolve workers actions) s) ?_ ?_ hrun halone hsink
  · intro _ _
    exact ⟨orderly_start, shown_start⟩
  · intro past a s s' hpast ih hstep halone hsink
    obtain ⟨ho, hshown⟩ := ih halone.of_snoc hsink.of_snoc
    have hsound := sound_run hpast
    rw [dispatched_snoc hpast hstep]
    have haccounted := ho.accounted hsound.counted
    refine ⟨ho.step hsound.counted ?_ ?_ hstep, hshown.step haccounted hsound hstep⟩
    · intro text htext
      exact halone past text [] s (by rw [htext]) hpast
    · intro w hw
      exact hsink w (by rw [hw]; exact List.mem_append_right _ (List.mem_singleton_self _))

/-- At quiescence no request is under way. -/
theorem Quiet.requests_eq (h : s.Quiet) : s.requests = 0 := by
  have hnone : s.workers.filterMap Worker.request? = [] :=
    List.filterMap_eq_nil_iff.mpr h.free
  rw [requests, h.work, hnone]
  rfl

/-- The latest snapshot has the current generation. -/
theorem generation_of_latest {x : Snapshot} (hlatest : (submitted actions).getLast? = some x) :
    x.generation = (submitted actions).length := by
  have hlast := congrArg (Option.map Snapshot.generation) hlatest
  rw [← List.getLast?_map, map_generation_submitted, Option.map_some] at hlast
  cases hlen : (submitted actions).length with
  | zero =>
    rw [hlen] at hlast
    cases hlast
  | succ n =>
    rw [hlen, List.range'_concat, List.getLast?_concat, Option.some.injEq] at hlast
    omega

/-- **The latest text wins.** Callers change the text one after another, and the sink
never breaks off. Then at rest the last call of the sink is for the request that the
latest change became, with the resolver's outcome on its text: spans that are applied, or
a fault that is reported. And what is dispatched, in the order of its numbers, is a part
of what was submitted, by increasing generations. -/
theorem latest_text_wins (hrun : run resolve workers actions = some s)
    (halone : OneAtATime resolve workers actions) (hsink : SinkHolds actions) :
    (∀ x, s.Quiet → (submitted actions).getLast? = some x →
      x.generation = s.generation
        ∧ ∃ request ∈ dispatched resolve workers actions, request.snapshot = x
          ∧ ∃ earlier, s.calls = ⟨request.sequence, resolve x.text⟩ :: earlier)
    ∧ (dispatched resolve workers actions).map Request.sequence
        = List.range' 1 (dispatched resolve workers actions).length
    ∧ ((dispatched resolve workers actions).map Request.snapshot).Sublist (submitted actions)
    ∧ ((dispatched resolve workers actions).map fun r => r.snapshot.generation).Pairwise
        (· < ·) := by
  obtain ⟨ho, hshown⟩ := orderly_and_shown_run hrun halone hsink
  have hpart : ((dispatched resolve workers actions).map Request.snapshot).Sublist
      (submitted actions) := (List.sublist_append_left _ _).trans ho.trail
  refine ⟨fun x hquiet hlatest => ?_, ho.numbered, hpart, ?_⟩
  · -- With nothing waiting, the newest snapshot can only be the last one dispatched.
    have hcurrent : x.generation = s.generation := by
      rw [generation_of_latest hlatest, (sound_run hrun).counted]
    have hnewest := ho.newest
    rw [hlatest, trail, queue, hquiet.pending, hquiet.changes, hquiet.inFlight,
      Option.toList_none, List.append_nil, List.append_nil, List.append_nil,
      List.getLast?_map, Option.map_eq_some_iff] at hnewest
    obtain ⟨request, hlast, rfl⟩ := hnewest
    have hmem := List.mem_of_getLast? hlast
    refine ⟨hcurrent, request, hmem, rfl, ?_⟩
    rcases hshown.current request hmem hcurrent with hway | hcall
    · rw [hquiet.requests_eq] at hway
      exact absurd hway (Multiset.notMem_zero _)
    · exact ⟨s.calls.tail, (List.eq_cons_of_mem_head? hcall)⟩
  · have hgenerations := hpart.map Snapshot.generation
    rw [map_generation_submitted, List.map_map] at hgenerations
    exact List.Pairwise.sublist hgenerations List.pairwise_lt_range'

/-- While the first text is being resolved, a second one comes and goes, and a third one
overtakes the first. -/
def overtaking : List Action :=
  [.change "a", .send 0, .receive, .timeout, .take 0, .change "", .send 0, .receive,
    .change "b", .send 0, .receive, .timeout, .take 1, .finish 1 false, .finish 0 false]

/-- The third text is what the sink is left with, though the first is finished last. -/
theorem overtaking_latest_wins :
    ∃ s, run nonEmptyOnly 2 overtaking = some s ∧ OneAtATime nonEmptyOnly 2 overtaking
      ∧ SinkHolds overtaking ∧ s.Quiet ∧ s.generation = 3
      ∧ (∃ request ∈ dispatched nonEmptyOnly 2 overtaking, request.snapshot = ⟨3, "b"⟩
          ∧ ∃ earlier, s.calls = ⟨request.sequence, nonEmptyOnly "b"⟩ :: earlier)
      ∧ ((dispatched nonEmptyOnly 2 overtaking).map Request.snapshot).Sublist
          (submitted overtaking) := by
  obtain ⟨s, hrun, hquiet, hgeneration⟩ : ∃ s, run nonEmptyOnly 2 overtaking = some s
      ∧ s.Quiet ∧ s.generation = 3 := ⟨_, rfl, ⟨rfl, rfl, rfl, rfl, by decide⟩, rfl⟩
  have halone : OneAtATime nonEmptyOnly 2 overtaking := by
    intro past text after m hsplit hpast
    simp [overtaking, List.cons_eq_append_iff] at hsplit
    rcases hsplit with ⟨rfl, -⟩ | ⟨_, rfl, ⟨rfl, -⟩ | ⟨rfl, -⟩⟩
    · cases hpast
      rfl
    · cases hpast
      rfl
    · cases hpast
      rfl
  have hsink : SinkHolds overtaking := by
    intro w hw
    simp [overtaking] at hw
  obtain ⟨hlast, -, hpart, -⟩ := latest_text_wins hrun halone hsink
  exact ⟨s, hrun, halone, hsink, hquiet, hgeneration, (hlast ⟨3, "b"⟩ hquiet rfl).2, hpart⟩

end Classdesk.Highlight.State
