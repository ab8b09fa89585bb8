import Classdesk.Proofs.Highlight.Quiescence

/-!
# The workers that are left

A worker ends when the sink breaks off under it, and nobody takes its place. So the workers
that are gone are as many as the calls of the sink that broke off:

> `count_gone_run`: `s.workers.count .gone = breaks resolve workers actions`

As long as one is left, the dispatcher is running (`dispatching_of_staffed`). When the last
one is gone, nothing is dispatched and nothing reaches the sink any more
(`silent_of_unstaffed`).
-/

namespace Classdesk.Highlight.State

variable {resolve : Resolver} {workers : Nat} {actions : List Action} {a : Action} {s s' : State}

/-- There is a worker left. -/
def Staffed (s : State) : Prop := ∃ w ∈ s.workers, w ≠ .gone

/-- Whether the sink is called in an action and breaks off. -/
def breaksOff (resolve : Resolver) (s : State) : Action → Bool
  | .finish w true =>
    (s.finishWork resolve true w).any fun s' => s'.calls.length != s.calls.length
  | _ => false

/-- How often the sink breaks off from a state on. -/
def breaksFrom (resolve : Resolver) : State → List Action → Nat
  | _, [] => 0
  | s, a :: actions =>
    (s.breaksOff resolve a).toNat + ((s.step resolve a).map (breaksFrom resolve · actions)).getD 0

/-- How often the sink broke off in a run. -/
def breaks (resolve : Resolver) (workers : Nat) (actions : List Action) : Nat :=
  breaksFrom resolve (start workers) actions

/-! ## What an action does to the workers -/

/-- A worker that does something else is gone only if it is gone then. -/
theorem count_gone_set {ws : List Worker} {w : Nat} {old new : Worker} (h : ws[w]? = some old)
    (hold : old ≠ .gone) :
    (ws.set w new).count .gone = ws.count .gone + (new == .gone).toNat := by
  obtain ⟨hw, hget⟩ := List.getElem?_eq_some_iff.mp h
  rw [List.count_set hw, hget]
  have hpresent : (old == Worker.gone) = false := by simpa using hold
  cases hnew : new == Worker.gone with
  | false => simp [hpresent]
  | true => simp [hpresent]

/-- What a worker that is done becomes. -/
theorem finishWork_workers {w : Nat} {sinkBreaks : Bool}
    (h : s.finishWork resolve sinkBreaks w = some s') :
    ∃ request, s.workers[w]? = some (.busy request)
      ∧ s'.workers = s.workers.set w
          (if sinkBreaks && s'.calls.length != s.calls.length then .gone else .idle) := by
  unfold finishWork at h
  split at h
  next request hworker =>
    cases h
    exact ⟨request, hworker, rfl⟩
  next => cases h

/-- A timeout ends the dispatcher if no worker is left, and makes a request of the snapshot
that was waited with otherwise. -/
theorem timeout_cases (h : s.timeout = some s') :
    ∃ x, s.pending = some x
      ∧ (¬ s.Staffed ∧ s' = { s with dispatching := false, pending := none, changes := [] }
        ∨ s.Staffed
          ∧ s' = { s with
                    pending := none
                    nextSequence := s.nextSequence + 1
                    work := s.work ++ [⟨s.nextSequence, x⟩] }) := by
  by_cases hstaffed : s.Staffed
  · obtain ⟨x, hx, hs'⟩ := timeout_eq h hstaffed
    exact ⟨x, hx, .inr ⟨hstaffed, hs'⟩⟩
  · obtain ⟨x, hx, h⟩ := Option.bind_eq_some_iff.mp h
    have hgone : s.workers.all (· == .gone) = true := by
      refine List.all_eq_true.mpr fun w hw => beq_iff_eq.mpr ?_
      by_contra hpresent
      exact hstaffed ⟨w, hw, hpresent⟩
    rw [if_pos hgone] at h
    cases h
    exact ⟨x, hx, .inl ⟨hstaffed, rfl⟩⟩

/-- Only a call that breaks off takes a worker away, and the dispatcher ends only if there
is none left. -/
theorem step_workers (h : s.step resolve a = some s') :
    s'.workers.length = s.workers.length
      ∧ s'.workers.count .gone = s.workers.count .gone + (s.breaksOff resolve a).toNat
      ∧ (s'.dispatching = s.dispatching ∨ ¬ s'.Staffed) := by
  cases a with
  | change text =>
    cases h
    exact ⟨rfl, rfl, .inl rfl⟩
  | send i =>
    obtain ⟨x, changes, -, -, rfl⟩ := sendChange_cases h
    exact ⟨rfl, rfl, .inl rfl⟩
  | receive =>
    obtain ⟨x, changes, -, rfl⟩ := receive_eq h
    exact ⟨rfl, rfl, .inl rfl⟩
  | timeout =>
    obtain ⟨x, -, ⟨hnone, rfl⟩ | ⟨-, rfl⟩⟩ := timeout_cases h
    · exact ⟨rfl, rfl, .inr hnone⟩
    · exact ⟨rfl, rfl, .inl rfl⟩
  | take w =>
    obtain ⟨request, work, hidle, -, rfl⟩ := takeWork_eq h
    exact ⟨List.length_set, count_gone_set hidle (by simp), .inl rfl⟩
  | finish w sinkBreaks =>
    obtain ⟨request, hworker, hset⟩ := finishWork_workers h
    have hdispatching : s'.dispatching = s.dispatching := by
      obtain ⟨request, new, gate, calls, -, -, hs'⟩ := finishWork_frame h
      rw [hs']
    refine ⟨by rw [hset, List.length_set], ?_, .inl hdispatching⟩
    rw [hset, count_gone_set hworker (by simp)]
    -- Whether the worker is gone now is what `breaksOff` asks.
    have hbroken : s.breaksOff resolve (.finish w sinkBreaks)
        = (sinkBreaks && s'.calls.length != s.calls.length) := by
      cases sinkBreaks with
      | false => rfl
      | true =>
        have hfinish : s.finishWork resolve true w = some s' := h
        simp only [breaksOff, hfinish, Option.any_some, Bool.true_and]
    rw [hbroken]
    cases sinkBreaks && s'.calls.length != s.calls.length with
    | false => rfl
    | true => rfl

private theorem staffed_iff : s.Staffed ↔ s.workers.count .gone < s.workers.length := by
  have hle := List.count_le_length (a := Worker.gone) (l := s.workers)
  rw [Nat.lt_iff_le_and_ne, and_iff_right hle, Ne, List.count_eq_length]
  constructor
  · rintro ⟨w, hw, hpresent⟩ hall
    exact hpresent (hall w hw).symm
  · intro hnot
    by_contra hnone
    refine hnot fun w hw => ?_
    by_contra hpresent
    exact hnone ⟨w, hw, fun hgone => hpresent hgone.symm⟩

/-- Nobody takes the place of a worker that is gone. -/
theorem Staffed.of_step (h : s'.Staffed) (hstep : s.step resolve a = some s') : s.Staffed := by
  obtain ⟨hlength, hcount, -⟩ := step_workers hstep
  rw [staffed_iff] at h ⊢
  omega

/-! ## Runs -/

/-- Every break takes one worker away, and nothing else does. -/
private theorem workers_of_steps (h : actions.foldlM (fun s a => s.step resolve a) s = some s') :
    s'.workers.length = s.workers.length
      ∧ s'.workers.count .gone = s.workers.count .gone + breaksFrom resolve s actions := by
  induction actions generalizing s with
  | nil =>
    cases h
    exact ⟨rfl, rfl⟩
  | cons a actions ih =>
    rw [List.foldlM_cons] at h
    obtain ⟨m, hstep, hrest⟩ := Option.bind_eq_some_iff.mp h
    obtain ⟨hlength, hcount, -⟩ := step_workers hstep
    obtain ⟨hlengths, hcounts⟩ := ih hrest
    rw [breaksFrom, hstep, Option.map_some, Option.getD_some]
    omega

/-- The workers that are gone are as many as the calls that broke off. -/
theorem count_gone_run (h : run resolve workers actions = some s) :
    s.workers.length = max workers 1
      ∧ s.workers.count .gone = breaks resolve workers actions := by
  obtain ⟨hlength, hcount⟩ := workers_of_steps h
  have hstart : (start workers).workers.count .gone = 0 := by
    rw [start, List.count_replicate]
    rfl
  have hall : (start workers).workers.length = max workers 1 := List.length_replicate
  rw [hall] at hlength
  rw [hstart, Nat.zero_add] at hcount
  exact ⟨hlength, hcount⟩

/-- A worker is left exactly if the sink broke off less often than there are workers. -/
theorem staffed_run_iff (h : run resolve workers actions = some s) :
    s.Staffed ↔ breaks resolve workers actions < max workers 1 := by
  obtain ⟨hlength, hcount⟩ := count_gone_run h
  rw [staffed_iff, hlength, hcount]

/-- A sink that never breaks off leaves all workers. -/
theorem breaksFrom_of_sinkHolds (h : SinkHolds actions) (s : State) :
    breaksFrom resolve s actions = 0 := by
  induction actions generalizing s with
  | nil => rfl
  | cons a actions ih =>
    have hnone : s.breaksOff resolve a = false := by
      cases a with
      | finish w sinkBreaks =>
        cases sinkBreaks with
        | false => rfl
        | true => exact absurd (List.mem_cons_self ..) (h w)
      | _ => rfl
    have hrest : SinkHolds actions := fun w hw => h w (List.mem_cons_of_mem _ hw)
    rw [breaksFrom, hnone]
    cases s.step resolve a with
    | none => rfl
    | some m => exact congrArg (0 + ·) (ih hrest m)

/-- A sink that never breaks off costs no worker. -/
theorem staffed_of_sinkHolds (hrun : run resolve workers actions = some s)
    (hsink : SinkHolds actions) : s.Staffed := by
  rw [staffed_run_iff hrun, breaks, breaksFrom_of_sinkHolds hsink]
  omega

/-- The dispatcher is running while there is a worker left. -/
theorem dispatching_of_staffed (hrun : run resolve workers actions = some s)
    (hstaffed : s.Staffed) : s.dispatching = true := by
  refine run_induction (P := fun _ s => s.Staffed → s.dispatching = true) ?_ ?_ hrun hstaffed
  · intro _
    rfl
  · intro past a s s' _ hbefore hstep hstaffed
    obtain ⟨-, -, hsame | hnone⟩ := step_workers hstep
    · rw [hsame]
      exact hbefore (hstaffed.of_step hstep)
    · exact absurd hstaffed hnone

/-- Without workers a timeout ends the dispatcher, so no request is queued. -/
theorem nothing_dispatched_of_unstaffed (hnone : ¬ s.Staffed)
    (hstep : s.step resolve a = some s') : s'.work.drop s.work.length = [] := by
  by_cases htimeout : a = .timeout
  · subst htimeout
    obtain ⟨x, -, ⟨-, rfl⟩ | ⟨hstaffed, -⟩⟩ := timeout_cases hstep
    · exact List.drop_length
    · exact absurd hstaffed hnone
  · exact nothing_dispatched hstep htimeout

/-- Without workers nothing is dispatched, and nobody calls the sink. -/
theorem silent_of_unstaffed (hnone : ¬ s.Staffed)
    (h : actions.foldlM (fun s a => s.step resolve a) s = some s') :
    s'.calls = s.calls ∧ dispatchedFrom resolve s actions = [] := by
  induction actions generalizing s with
  | nil =>
    cases h
    exact ⟨rfl, rfl⟩
  | cons a actions ih =>
    rw [List.foldlM_cons] at h
    obtain ⟨m, hstep, hrest⟩ := Option.bind_eq_some_iff.mp h
    obtain ⟨hcalls, hrequests⟩ := ih (fun hstaffed => hnone (hstaffed.of_step hstep)) hrest
    refine ⟨?_, ?_⟩
    · rw [hcalls]
      cases step_effect hstep with
      | changed _ _ _ _ _ hsame | moved _ _ _ _ _ hsame | queued _ _ _ _ _ hsame => exact hsame
      | called w sinkBreaks request hworker =>
        exact absurd ⟨_, List.mem_of_getElem? hworker, by simp⟩ hnone
    · simp only [dispatchedFrom, hstep, hrequests, nothing_dispatched_of_unstaffed hnone hstep,
        List.append_nil]

end Classdesk.Highlight.State
