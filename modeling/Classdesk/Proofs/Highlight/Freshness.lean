import Classdesk.Proofs.Highlight.Runs

/-!
# The sink is never shown anything old

`calls_in_order_and_current`: in every run the sink is called in the order of the
sequence numbers, each call is for the text that was current when it was made, and
its outcome is the resolver's for exactly this text.

The gate remembers what was applied but not what was reported, so it does not order the
calls by itself. What does is that every generation is carried by one snapshot only:
when the sink is called for the current text, no other request is for it. A request that
can pass later is for a later text, and was queued after this call.

> `Sound.latest`: a request for the current text has a higher number than every call.
-/

namespace Classdesk.Highlight.State

variable {resolve : Resolver} {workers : Nat} {actions : List Action} {s s' : State}

/-- The invariant of runs. -/
structure Sound (past : List Action) (s : State) : Prop where
  counted : (submitted past).length = s.generation
  known : ∀ x ∈ s.carried, x ∈ submitted past
  /-- No two snapshots have the same generation. -/
  single : (s.carried.map Snapshot.generation).Nodup
  requests_lt : ∀ r ∈ s.requests, r.sequence < s.nextSequence
  calls_lt : ∀ c ∈ s.calls, c.sequence < s.nextSequence
  latest : ∀ r ∈ s.requests, r.snapshot.generation = s.generation →
    ∀ c ∈ s.calls, c.sequence < r.sequence
  ordered : s.calls.Pairwise fun later earlier => earlier.sequence < later.sequence

private theorem snapshot_mem_carried {r : Request} (h : r ∈ s.requests) : r.snapshot ∈ s.carried :=
  Multiset.mem_add.mpr (.inr (Multiset.mem_map_of_mem _ h))

/-- No snapshot is newer than the text. -/
theorem Sound.generation_le {past : List Action} (h : Sound past s) {x : Snapshot}
    (hx : x ∈ s.carried) : x.generation ≤ s.generation :=
  h.counted ▸ generation_le_length_submitted (h.known x hx)

/-- Nothing is requested at the start. -/
theorem requests_start : (start workers).requests = 0 := by
  have hidle : (List.replicate (max workers 1) Worker.idle).filterMap Worker.request? = [] := by
    simp [List.filterMap_replicate, Worker.request?]
  simp only [requests, start, hidle]
  rfl

private theorem sound_start : Sound [] (start workers) := by
  have hrequests : (start workers).requests = 0 := requests_start
  have hcarried : (start workers).carried = 0 := by
    rw [carried, hrequests]
    rfl
  refine ⟨rfl, ?_, ?_, ?_, ?_, ?_, ?_⟩
  · simp [hcarried]
  · simp [hcarried]
  · simp [hrequests]
  · simp [start]
  · simp [hrequests]
  · simp [start]

/-- A change makes all requests old. -/
theorem Sound.changed {past : List Action} (h : Sound past s) {text : String}
    (hgeneration : s'.generation = s.generation + 1)
    (hcarried : s'.carried = ⟨s.generation + 1, text⟩ ::ₘ s.carried)
    (hrequests : s'.requests = s.requests) (hnext : s'.nextSequence = s.nextSequence)
    (hcalls : s'.calls = s.calls) : Sound (past ++ [.change text]) s' := by
  refine ⟨?_, fun x hx => ?_, ?_, ?_, ?_, fun r hr hcurrent => ?_, ?_⟩
  · rw [submitted_change, List.length_append, h.counted, hgeneration]
    rfl
  · rw [hcarried, Multiset.mem_cons] at hx
    rw [submitted_change, List.mem_append, List.mem_singleton, h.counted]
    rcases hx with rfl | hx
    · exact .inr rfl
    · exact .inl (h.known x hx)
  · rw [hcarried, Multiset.map_cons, Multiset.nodup_cons]
    refine ⟨fun hmem => ?_, h.single⟩
    obtain ⟨x, hx, hgen⟩ := Multiset.mem_map.mp hmem
    have hle := h.generation_le hx
    simp only at hgen
    omega
  · rw [hrequests, hnext]
    exact h.requests_lt
  · rw [hcalls, hnext]
    exact h.calls_lt
  · rw [hrequests] at hr
    have hle := h.generation_le (snapshot_mem_carried hr)
    omega
  · rw [hcalls]
    exact h.ordered

/-- Dropping snapshots and requests does no harm. -/
theorem Sound.moved {past : List Action} (h : Sound past s)
    (hgeneration : s'.generation = s.generation) (hcarried : s'.carried ≤ s.carried)
    (hrequests : s'.requests ≤ s.requests) (hnext : s'.nextSequence = s.nextSequence)
    (hcalls : s'.calls = s.calls) : Sound past s' := by
  refine ⟨?_, fun x hx => ?_, ?_, fun r hr => ?_, ?_, fun r hr hcurrent => ?_, ?_⟩
  · rw [hgeneration]
    exact h.counted
  · exact h.known x (Multiset.mem_of_le hcarried hx)
  · exact Multiset.nodup_of_le (Multiset.map_le_map hcarried) h.single
  · rw [hnext]
    exact h.requests_lt r (Multiset.mem_of_le hrequests hr)
  · rw [hcalls, hnext]
    exact h.calls_lt
  · rw [hcalls]
    rw [hgeneration] at hcurrent
    exact h.latest r (Multiset.mem_of_le hrequests hr) hcurrent
  · rw [hcalls]
    exact h.ordered

/-- A new request has a higher number than all calls. -/
theorem Sound.queued {past : List Action} (h : Sound past s) {snapshot : Snapshot}
    (hgeneration : s'.generation = s.generation) (hcarried : s'.carried = s.carried)
    (hrequests : s'.requests = ⟨s.nextSequence, snapshot⟩ ::ₘ s.requests)
    (hnext : s'.nextSequence = s.nextSequence + 1) (hcalls : s'.calls = s.calls) :
    Sound past s' := by
  refine ⟨?_, ?_, ?_, fun r hr => ?_, fun c hc => ?_, fun r hr hcurrent => ?_, ?_⟩
  · rw [hgeneration]
    exact h.counted
  · rw [hcarried]
    exact h.known
  · rw [hcarried]
    exact h.single
  · rw [hrequests, Multiset.mem_cons] at hr
    rw [hnext]
    rcases hr with rfl | hr
    · exact Nat.lt_succ_self _
    · exact Nat.lt_succ_of_lt (h.requests_lt r hr)
  · rw [hcalls] at hc
    rw [hnext]
    exact Nat.lt_succ_of_lt (h.calls_lt c hc)
  · rw [hrequests, Multiset.mem_cons] at hr
    rw [hcalls]
    rw [hgeneration] at hcurrent
    rcases hr with rfl | hr
    · exact h.calls_lt
    · exact h.latest r hr hcurrent
  · rw [hcalls]
    exact h.ordered

/-- A request that passes was the only one for the current text. -/
theorem Sound.called {past : List Action} (h : Sound past s) {request : Request}
    {outcome : Except HighlightFault (List Span)}
    (hcurrent : request.snapshot.generation = s.generation)
    (hgeneration : s'.generation = s.generation)
    (hcarried : s.carried = request.snapshot ::ₘ s'.carried)
    (hrequests : s.requests = request ::ₘ s'.requests)
    (hnext : s'.nextSequence = s.nextSequence)
    (hcalls : s'.calls = ⟨request.sequence, outcome⟩ :: s.calls) : Sound past s' := by
  have hmem : request ∈ s.requests := hrequests ▸ Multiset.mem_cons_self _ _
  have hsingle := h.single
  rw [hcarried, Multiset.map_cons, Multiset.nodup_cons] at hsingle
  obtain ⟨honly, hrest⟩ := hsingle
  refine ⟨?_, fun x hx => ?_, hrest, fun r hr => ?_, fun c hc => ?_, fun r hr hagain => ?_, ?_⟩
  · rw [hgeneration]
    exact h.counted
  · exact h.known x (hcarried ▸ Multiset.mem_cons_of_mem hx)
  · rw [hnext]
    exact h.requests_lt r (hrequests ▸ Multiset.mem_cons_of_mem hr)
  · rw [hcalls, List.mem_cons] at hc
    rw [hnext]
    rcases hc with rfl | hc
    · exact h.requests_lt request hmem
    · exact h.calls_lt c hc
  · -- Another request for the current text would carry its generation a second time.
    rw [hgeneration, ← hcurrent] at hagain
    exact absurd (Multiset.mem_map.mpr ⟨_, snapshot_mem_carried hr, hagain⟩) honly
  · rw [hcalls, List.pairwise_cons]
    exact ⟨h.latest request hmem hcurrent, h.ordered⟩

/-- An action that submits no text leaves the submitted texts alone. -/
theorem Sound.other {past : List Action} {a : Action} (h : Sound past s)
    (htext : a.text? = none) : Sound (past ++ [a]) s :=
  { h with
    counted := submitted_other past htext ▸ h.counted
    known := submitted_other past htext ▸ h.known }

/-- Every action keeps the invariant. -/
theorem Sound.step {past : List Action} {a : Action} (h : Sound past s)
    (hstep : s.step resolve a = some s') : Sound (past ++ [a]) s' := by
  cases step_effect hstep with
  | changed text hgeneration hcarried hrequests hnext hcalls =>
    exact h.changed hgeneration hcarried hrequests hnext hcalls
  | moved htext hgeneration hcarried hrequests hnext hcalls =>
    exact (h.moved hgeneration hcarried hrequests hnext hcalls).other htext
  | queued snapshot hgeneration hcarried hrequests hnext hcalls =>
    exact (h.queued hgeneration hcarried hrequests hnext hcalls).other rfl
  | called w sinkBreaks request hworker hcurrent hgeneration hcarried hrequests hnext hcalls =>
    exact (h.called hcurrent hgeneration hcarried hrequests hnext hcalls).other rfl

/-- Every run leads to a sound state. -/
theorem sound_run (h : run resolve workers actions = some s) : Sound actions s :=
  run_induction sound_start (fun _ _ _ _ _ hpast hstep => hpast.step hstep) h

/-! ## Where calls come from -/

/-- The sink was called by a worker that was done with a request for the current text:
`before` the worker was done, `earlier` calls had been made, and the request held the
snapshot that was submitted with the current generation. -/
def Delivered (resolve : Resolver) (workers : Nat) (actions : List Action)
    (earlier : List SinkCall) (call : SinkCall) : Prop :=
  ∃ before w sinkBreaks after s s' request,
    actions = before ++ .finish w sinkBreaks :: after
    ∧ run resolve workers before = some s ∧ s.calls = earlier
    ∧ s.step resolve (.finish w sinkBreaks) = some s' ∧ s'.calls = call :: earlier
    ∧ s.workers[w]? = some (.busy request) ∧ call.sequence = request.sequence
    ∧ request.snapshot.generation = s.generation ∧ request.snapshot ∈ submitted before
    ∧ call.outcome = resolve request.snapshot.text

/-- A call stays delivered as the run goes on. -/
private theorem Delivered.snoc {earlier : List SinkCall} {call : SinkCall}
    (h : Delivered resolve workers actions earlier call) (a : Action) :
    Delivered resolve workers (actions ++ [a]) earlier call := by
  obtain ⟨before, w, sinkBreaks, after, s, s', request, hactions, h⟩ := h
  refine ⟨before, w, sinkBreaks, after ++ [a], s, s', request, ?_, h⟩
  rw [hactions, List.append_assoc, List.cons_append]

/-- A busy worker's request is one of the requests. -/
theorem mem_requests_of_busy {w : Nat} {request : Request}
    (h : s.workers[w]? = some (.busy request)) : request ∈ s.requests := by
  refine Multiset.mem_add.mpr (.inr ?_)
  exact List.mem_filterMap.mpr ⟨_, List.mem_of_getElem? h, rfl⟩

/-- Every call of the sink was delivered. -/
private theorem delivered_run (hrun : run resolve workers actions = some s) :
    ∀ later call earlier, s.calls = later ++ call :: earlier →
      Delivered resolve workers actions earlier call := by
  refine run_induction (P := fun actions s => ∀ later call earlier,
    s.calls = later ++ call :: earlier → Delivered resolve workers actions earlier call)
    ?_ ?_ hrun
  · intro later call earlier h
    simp [start] at h
  · intro past a s s' hpast ih hstep later call earlier hsplit
    cases step_effect hstep with
    | changed text _ _ _ _ hcalls | moved _ _ _ _ _ hcalls | queued _ _ _ _ _ hcalls =>
      exact (ih later call earlier (hcalls ▸ hsplit)).snoc _
    | called w sinkBreaks request hworker hcurrent _ _ _ _ hcalls =>
      cases later with
      | nil =>
        -- This call is made just now.
        rw [hcalls] at hsplit
        obtain ⟨rfl, rfl⟩ := List.cons.inj hsplit
        have hknown := (sound_run hpast).known _
          (snapshot_mem_carried (mem_requests_of_busy hworker))
        exact ⟨past, w, sinkBreaks, [], s, s', request, rfl, hpast, rfl, hstep, hcalls,
          hworker, rfl, hcurrent, hknown, rfl⟩
      | cons _ later =>
        rw [hcalls] at hsplit
        exact (ih later call earlier (List.cons.inj hsplit).2).snoc _

/-- **The sink is never shown anything old**: its calls are in the order of their
numbers, and each was made for the current text with what the resolver says of it. -/
theorem calls_in_order_and_current (h : run resolve workers actions = some s) :
    (s.calls.Pairwise fun later earlier => earlier.sequence < later.sequence)
      ∧ ∀ later call earlier, s.calls = later ++ call :: earlier →
          Delivered resolve workers actions earlier call :=
  ⟨(sound_run h).ordered, delivered_run h⟩

/-- A resolver that gives up on the empty text. -/
def nonEmptyOnly : Resolver := fun text =>
  if text = "" then .error (.failed "nothing to show") else .ok [⟨0, text.utf8ByteSize, []⟩]

/-- A fault is reported, the next text changes while it is being resolved, and the text
after it is applied. -/
def threeChanges : List Action :=
  [.change "", .send 0, .receive, .timeout, .take 0, .finish 0 false,
    .change "a", .send 0, .receive, .timeout, .take 1, .change "b", .finish 1 false,
    .send 0, .receive, .timeout, .take 0, .finish 0 false]

/-- Two of the three texts are delivered, and the one in between is dropped as out of date. -/
theorem threeChanges_in_order_and_current :
    ∃ s, run nonEmptyOnly 2 threeChanges = some s ∧ s.calls.map (·.sequence) = [3, 1]
      ∧ (s.calls.Pairwise fun later earlier => earlier.sequence < later.sequence)
      ∧ ∀ later call earlier, s.calls = later ++ call :: earlier →
          Delivered nonEmptyOnly 2 threeChanges earlier call := by
  obtain ⟨s, hrun, hsequences⟩ : ∃ s, run nonEmptyOnly 2 threeChanges = some s
      ∧ s.calls.map (·.sequence) = [3, 1] := ⟨_, rfl, rfl⟩
  exact ⟨s, hrun, hsequences, calls_in_order_and_current hrun⟩

end Classdesk.Highlight.State
