import Classdesk.Proofs.Highlight.Overtaking

/-!
# What a highlighter survives

A resolver that breaks off is an outcome like any other. A sink that breaks off takes the
worker that called it away, so a highlighter survives fewer such calls than it has workers:

> `survives_fewer_breaks_than_workers`: while the sink broke off less often than there are
> workers, the highlighter goes on until it is at rest, and has then shown the latest text.
> From then on it neither dispatches anything nor calls the sink.

With one worker the first such call is the end of it (`soleWorker_lost`).

That it goes on is said by two facts. It stops only at rest (`Stuck.quiet`), and every
action other than a change leaves less to do (`remaining_lt_of_step`).
-/

namespace Classdesk.Highlight.State

variable {resolve : Resolver} {workers : Nat} {actions : List Action} {a : Action} {s s' : State}

/-- How many actions can still happen without another change. A change that has begun is
sent, received, dispatched, taken and finished. -/
def remaining (s : State) : Nat :=
  5 * s.inFlight.length + 4 * s.changes.length + 3 * s.pending.toList.length
    + 2 * s.work.length + (s.workers.filterMap Worker.request?).length

/-! ## Every action leaves less to do -/

private theorem card_requests (s : State) :
    s.requests.card = s.work.length + (s.workers.filterMap Worker.request?).length := by
  simp [requests]

/-- Every action other than a change leaves less to do. -/
theorem remaining_lt_of_step (htext : a.text? = none) (h : s.step resolve a = some s') :
    s'.remaining < s.remaining := by
  cases a with
  | change text => cases htext
  | send i =>
    obtain ⟨x, changes, hx, hchanges, rfl⟩ := sendChange_cases h
    obtain ⟨hi, -⟩ := List.getElem?_eq_some_iff.mp hx
    have hflight := List.length_eraseIdx_of_lt hi
    have hle : changes.length ≤ s.changes.length + 1 := by
      rcases hchanges with rfl | rfl
      · simp
      · simp
    simp only [remaining, hflight]
    omega
  | receive =>
    obtain ⟨x, changes, hchanges, rfl⟩ := receive_eq h
    simp only [remaining, hchanges, Option.toList_some, List.length_cons, List.length_nil]
    omega
  | timeout =>
    obtain ⟨x, hx, ⟨-, rfl⟩ | ⟨-, rfl⟩⟩ := timeout_cases h
    · simp only [remaining, hx, Option.toList_some, Option.toList_none, List.length_cons,
        List.length_nil]
      omega
    · simp only [remaining, hx, Option.toList_some, Option.toList_none, List.length_cons,
        List.length_nil, List.length_append]
      omega
  | take w =>
    have hrequests := congrArg Multiset.card (takeWork_requests h)
    obtain ⟨request, work, -, hwork, rfl⟩ := takeWork_eq h
    simp only [card_requests, hwork, List.length_cons] at hrequests
    simp only [remaining, hwork, List.length_cons]
    omega
  | finish w sinkBreaks =>
    obtain ⟨request, new, gate, calls, hworker, hfree, rfl⟩ := finishWork_frame h
    have hrequests := congrArg Multiset.card (requests_of_done hworker hfree)
    simp only [card_requests, Multiset.card_cons, Multiset.card_add, Multiset.coe_card]
      at hrequests
    simp only [remaining]
    omega

/-- Without another change, no more than `remaining` actions happen. -/
theorem length_le_remaining (hchanges : ∀ a ∈ actions, a.text? = none)
    (h : actions.foldlM (fun s a => s.step resolve a) s = some s') :
    actions.length + s'.remaining ≤ s.remaining := by
  induction actions generalizing s with
  | nil =>
    cases h
    simp
  | cons a actions ih =>
    rw [List.foldlM_cons] at h
    obtain ⟨m, hstep, hrest⟩ := Option.bind_eq_some_iff.mp h
    have hlt := remaining_lt_of_step (hchanges a (List.mem_cons_self ..)) hstep
    have hle := ih (fun b hb => hchanges b (List.mem_cons_of_mem _ hb)) hrest
    rw [List.length_cons]
    omega

/-! ## It stops only at rest -/

/-- Nothing can happen without another change. -/
def Stuck (resolve : Resolver) (s : State) : Prop :=
  ∀ a : Action, a.text? = none → s.step resolve a = none

theorem Stuck.inFlight (h : s.Stuck resolve) : s.inFlight = [] := by
  have hsend : s.sendChange 0 = none := h (.send 0) rfl
  cases hflight : s.inFlight with
  | nil => rfl
  | cons x inFlight => simp [sendChange, hflight] at hsend

theorem Stuck.changes (h : s.Stuck resolve) (hrunning : s.dispatching = true) :
    s.changes = [] := by
  have hreceive : s.receive = none := h .receive rfl
  cases hchanges : s.changes with
  | nil => rfl
  | cons x changes => simp [receive, hchanges, hrunning] at hreceive

theorem Stuck.pending (h : s.Stuck resolve) : s.pending = none := by
  have htimeout : s.timeout = none := h .timeout rfl
  cases hpending : s.pending with
  | none => rfl
  | some x =>
    by_cases hgone : s.workers.all (· == .gone) = true
    · simp [timeout, hpending, hgone] at htimeout
    · simp [timeout, hpending, hgone] at htimeout

/-- In a stuck state no worker has anything to do. -/
theorem Stuck.free (h : s.Stuck resolve) : ∀ worker ∈ s.workers, worker.request? = none := by
  intro worker hmem
  obtain ⟨w, hw⟩ := List.getElem?_of_mem hmem
  have hfinish : s.finishWork resolve false w = none := h (.finish w false) rfl
  cases worker with
  | idle => rfl
  | gone => rfl
  | busy request => simp [finishWork, hw] at hfinish

/-- A worker that is left and not busy would take what is queued. -/
theorem Stuck.work (h : s.Stuck resolve) (hstaffed : s.Staffed) : s.work = [] := by
  obtain ⟨worker, hmem, hpresent⟩ := hstaffed
  have hidle : worker = .idle := by
    cases worker with
    | idle => rfl
    | busy request => cases h.free _ hmem
    | gone => exact absurd rfl hpresent
  obtain ⟨w, hw⟩ := List.getElem?_of_mem hmem
  have htake : s.takeWork w = none := h (.take w) rfl
  cases hwork : s.work with
  | nil => rfl
  | cons request work => simp [takeWork, hw, hidle, hwork] at htake

/-- With a dispatcher and a worker, something can happen unless all is at rest. -/
theorem Stuck.quiet (h : s.Stuck resolve) (hrunning : s.dispatching = true)
    (hstaffed : s.Staffed) : s.Quiet :=
  ⟨h.inFlight, h.changes hrunning, h.pending, h.work hstaffed, h.free⟩

/-- At rest there is nothing left to do. -/
theorem Quiet.stuck (h : s.Quiet) : s.Stuck resolve := by
  have hnothing : s.remaining = 0 := by
    have hfree : s.workers.filterMap Worker.request? = [] :=
      List.filterMap_eq_nil_iff.mpr h.free
    simp [remaining, h.inFlight, h.changes, h.pending, h.work, hfree]
  intro a htext
  cases hstep : s.step resolve a with
  | none => rfl
  | some s' =>
    have hlt := remaining_lt_of_step htext hstep
    omega

/-! ## How long it goes on -/

/-- A longer run goes on from where the shorter one ended. -/
theorem run_append {more : List Action} (hrun : run resolve workers actions = some s) :
    run resolve workers (actions ++ more) = more.foldlM (fun s a => s.step resolve a) s := by
  have hactions : actions.foldlM (fun s a => s.step resolve a) (start workers) = some s := hrun
  rw [run, List.foldlM_append, hactions]
  rfl

/-- **A highlighter survives fewer breaks of its sink than it has workers.** Without another
change, only so many actions follow. While the sink broke off less often than there are
workers, the dispatcher and a worker are there, and when nothing more can happen, the latest
text was dispatched and is what the sink was called with last, unless another one overtook it.
When the sink broke off as often as there are workers, no worker is left, and whatever
follows, nothing is dispatched and the sink is not called again. -/
theorem survives_fewer_breaks_than_workers (hrun : run resolve workers actions = some s) :
    (∀ more s', (∀ a ∈ more, a.text? = none) → run resolve workers (actions ++ more) = some s' →
        more.length ≤ s.remaining)
    ∧ (breaks resolve workers actions < max workers 1 →
        s.dispatching = true ∧ s.Staffed
        ∧ ∀ x, s.Stuck resolve → (submitted actions).getLast? = some x →
            (¬ ∃ y, Overtakes resolve workers actions y x) →
            ∃ request ∈ dispatched resolve workers actions, request.snapshot = x
              ∧ ∃ earlier, s.calls = ⟨request.sequence, resolve x.text⟩ :: earlier)
    ∧ (max workers 1 ≤ breaks resolve workers actions →
        ¬ s.Staffed
        ∧ ∀ more s', run resolve workers (actions ++ more) = some s' →
            s'.calls = s.calls
            ∧ dispatched resolve workers (actions ++ more)
                = dispatched resolve workers actions) := by
  refine ⟨fun more s' hmore hend => ?_, fun hfewer => ?_, fun hall => ?_⟩
  · rw [run_append hrun] at hend
    exact le_trans (Nat.le_add_right _ _) (length_le_remaining hmore hend)
  · have hstaffed : s.Staffed := (staffed_run_iff hrun).mpr hfewer
    have hrunning := dispatching_of_staffed hrun hstaffed
    refine ⟨hrunning, hstaffed, fun x hstuck hlatest hnever => ?_⟩
    have hquiet := hstuck.quiet hrunning hstaffed
    obtain ⟨request, hrequest, hx⟩ :=
      (dispatched_iff_not_overtaken hrun hstaffed hquiet hlatest).mpr hnever
    exact ⟨request, hrequest, hx,
      shown_of_dispatched hrun hstaffed hquiet hlatest hrequest hx⟩
  · have hnone : ¬ s.Staffed := fun hstaffed =>
      absurd ((staffed_run_iff hrun).mp hstaffed) (Nat.not_lt.mpr hall)
    refine ⟨hnone, fun more s' hend => ?_⟩
    rw [run_append hrun] at hend
    obtain ⟨hcalls, hrequests⟩ := silent_of_unstaffed hnone hend
    refine ⟨hcalls, ?_⟩
    rw [dispatched, dispatchedFrom_append more hrun, hrequests, List.append_nil]
    rfl

/-- The sink breaks off when it is shown the first text, and the second text goes to the
other worker. -/
def relieved : List Action :=
  [.change "a", .send 0, .receive, .timeout, .take 0, .finish 0 true,
    .change "b", .send 0, .receive, .timeout, .take 1, .finish 1 false]

/-- One break leaves one of two workers, and the second text is shown. -/
theorem relieved_survives :
    ∃ s, run nonEmptyOnly 2 relieved = some s ∧ breaks nonEmptyOnly 2 relieved = 1
      ∧ s.workers = [.gone, .idle] ∧ s.dispatching = true
      ∧ ∃ request ∈ dispatched nonEmptyOnly 2 relieved, request.snapshot = ⟨2, "b"⟩
        ∧ ∃ earlier, s.calls = ⟨request.sequence, nonEmptyOnly "b"⟩ :: earlier := by
  obtain ⟨s, hrun, hquiet, hworkers⟩ : ∃ s, run nonEmptyOnly 2 relieved = some s ∧ s.Quiet
      ∧ s.workers = [.gone, .idle] := ⟨_, rfl, ⟨rfl, rfl, rfl, rfl, by decide⟩, rfl⟩
  have hbreaks : breaks nonEmptyOnly 2 relieved = 1 := rfl
  obtain ⟨-, hfewer, -⟩ := survives_fewer_breaks_than_workers hrun
  obtain ⟨hrunning, hstaffed, hshown⟩ := hfewer (by rw [hbreaks]; decide)
  have hmem : (⟨2, ⟨2, "b"⟩⟩ : Request) ∈ dispatched nonEmptyOnly 2 relieved := by
    show (⟨2, ⟨2, "b"⟩⟩ : Request) ∈ [⟨1, ⟨1, "a"⟩⟩, ⟨2, ⟨2, "b"⟩⟩]
    simp
  have hnever := (dispatched_iff_not_overtaken hrun hstaffed hquiet rfl).mp ⟨_, hmem, rfl⟩
  exact ⟨s, hrun, hbreaks, hworkers, hrunning, hshown ⟨2, "b"⟩ hquiet.stuck rfl hnever⟩

/-- The same texts with one worker. -/
def soleWorker : List Action :=
  [.change "a", .send 0, .receive, .timeout, .take 0, .finish 0 true,
    .change "b", .send 0, .receive, .timeout]

/-- The sink breaks off once, and the only worker and with the next text the dispatcher are
gone: that text is dropped, and all is at rest without it. -/
theorem soleWorker_lost :
    ∃ s, run nonEmptyOnly 1 soleWorker = some s ∧ breaks nonEmptyOnly 1 soleWorker = 1
      ∧ s.workers = [.gone] ∧ s.dispatching = false ∧ s.Quiet
      ∧ (submitted soleWorker).getLast? = some ⟨2, "b"⟩
      ∧ dispatched nonEmptyOnly 1 soleWorker = [⟨1, ⟨1, "a"⟩⟩]
      ∧ s.calls = [⟨1, nonEmptyOnly "a"⟩] :=
  ⟨_, rfl, rfl, rfl, rfl, ⟨rfl, rfl, rfl, rfl, by decide⟩, rfl, rfl, rfl⟩

end Classdesk.Highlight.State
