import Classdesk.Proofs.Highlight.Staffing

/-!
# Changes that overtake each other

A change takes its generation first and is sent later. Two callers that do this at the same
time may send in the other order, and the dispatcher keeps what it receives last. So it may
drop the latest snapshot for an older one, which the gate then refuses: the latest text is
never shown. `crossing_loses_latest` is such a run.

This is the only way to lose the latest text while the sink holds:

> `latest_shown_unless_overtaken`: a snapshot overtakes another one only if it was in flight
> when the other change began; and at rest, the latest text was dispatched, and is what the
> sink was shown last, exactly if nothing overtook it.

The way of the snapshots is followed by the same trail as for callers that do not overlap,
but it is kept as a bag: sending changes its order (`Tracked`). That overtaking needs an
overlap is a fact about the order in which snapshots were sent (`Lined`).
-/

namespace Classdesk.Highlight.State

variable {resolve : Resolver} {workers : Nat} {actions past : List Action} {a : Action}
  {s s' : State} {x y : Snapshot} {log : List Request}

/-- The dispatcher drops `x`, which it waited with, for the snapshot `y` of an older text. -/
def Overtakes (resolve : Resolver) (workers : Nat) (actions : List Action) (y x : Snapshot) :
    Prop :=
  ∃ before after m changes, actions = before ++ .receive :: after
    ∧ run resolve workers before = some m ∧ m.pending = some x ∧ m.changes = y :: changes
    ∧ y.generation < x.generation

/-- The change to `y` was in flight when the change to `x` began. -/
def Overlaps (resolve : Resolver) (workers : Nat) (actions : List Action) (y x : Snapshot) :
    Prop :=
  ∃ before after m, actions = before ++ .change x.text :: after
    ∧ run resolve workers before = some m ∧ x.generation = m.generation + 1 ∧ y ∈ m.inFlight

/-- Two changes that overlap do so in every longer run. -/
theorem Overlaps.append (h : Overlaps resolve workers past y x) (more : List Action) :
    Overlaps resolve workers (past ++ more) y x := by
  obtain ⟨before, after, m, hpast, h⟩ := h
  refine ⟨before, after ++ more, m, ?_, h⟩
  rw [hpast, List.append_assoc, List.cons_append]

/-- What overtakes in a longer run did so before, or does so in the last action. -/
theorem overtakes_snoc (hpast : run resolve workers past = some s) :
    Overtakes resolve workers (past ++ [a]) y x
      ↔ Overtakes resolve workers past y x
        ∨ a = .receive ∧ s.pending = some x
          ∧ ∃ changes, s.changes = y :: changes ∧ y.generation < x.generation := by
  constructor
  · rintro ⟨before, after, m, changes, hsplit, hbefore, hpending, hchanges, hlt⟩
    rcases List.eq_nil_or_concat after with rfl | ⟨front, last, rfl⟩
    · obtain ⟨rfl, hlast⟩ := List.append_inj' hsplit rfl
      cases hlast
      rw [hpast, Option.some.injEq] at hbefore
      subst hbefore
      exact .inr ⟨rfl, hpending, changes, hchanges, hlt⟩
    · rw [List.concat_eq_append, ← List.cons_append, ← List.append_assoc] at hsplit
      obtain ⟨rfl, -⟩ := List.append_inj' hsplit rfl
      exact .inl ⟨before, front, m, changes, rfl, hbefore, hpending, hchanges, hlt⟩
  · rintro (⟨before, after, m, changes, rfl, h⟩ | ⟨rfl, hpending, changes, hchanges, hlt⟩)
    · refine ⟨before, after ++ [a], m, changes, ?_, h⟩
      rw [List.append_assoc, List.cons_append]
    · exact ⟨past, [], s, changes, rfl, hpast, hpending, hchanges, hlt⟩

/-! ## Nothing else gets lost -/

/-- Everything on the trail was submitted, and the latest snapshot is on it unless it was
overtaken. -/
structure Tracked (resolve : Resolver) (workers : Nat) (log : List Request)
    (past : List Action) (s : State) : Prop where
  known : (s.trail log : Multiset Snapshot) ≤ submitted past
  kept : ∀ x, (submitted past).getLast? = some x →
    x ∈ s.trail log ∨ ∃ y, Overtakes resolve workers past y x
  /-- What was overtaken does not come back. -/
  lost : ∀ x y, Overtakes resolve workers past y x → x ∈ submitted past ∧ x ∉ s.trail log

private theorem tracked_start : Tracked resolve workers [] [] (start workers) := by
  refine ⟨le_refl _, ?_, ?_⟩
  · intro x hx
    cases hx
  · rintro x y ⟨before, after, m, changes, hsplit, -⟩
    simp at hsplit

/-- An action that only moves snapshots along the trail. -/
theorem Tracked.moved {log' : List Request} (h : Tracked resolve workers log past s)
    (hpast : run resolve workers past = some s) (htext : a.text? = none) (hother : a ≠ .receive)
    (hsame : (s'.trail log' : Multiset Snapshot) = s.trail log) :
    Tracked resolve workers log' (past ++ [a]) s' := by
  have hmem : ∀ x, x ∈ s'.trail log' ↔ x ∈ s.trail log := fun x =>
    (Multiset.coe_eq_coe.mp hsame).mem_iff
  have hovertakes : ∀ x y, Overtakes resolve workers (past ++ [a]) y x
      ↔ Overtakes resolve workers past y x := by
    intro x y
    rw [overtakes_snoc hpast, or_iff_left]
    exact fun hreceive => hother hreceive.1
  refine ⟨?_, fun x hlatest => ?_, fun x y hover => ?_⟩
  · rw [hsame, submitted_other past htext]
    exact h.known
  · rw [submitted_other past htext] at hlatest
    simp only [hmem, hovertakes]
    exact h.kept x hlatest
  · rw [submitted_other past htext, hmem]
    exact h.lost x y ((hovertakes x y).mp hover)

/-- A change comes in, and it is the latest one. -/
theorem Tracked.change (h : Tracked resolve workers log past s)
    (hpast : run resolve workers past = some s) (text : String) :
    Tracked resolve workers log (past ++ [.change text]) (s.beginChange text) := by
  have hcounted := (sound_run hpast).counted
  have htrail : (s.beginChange text).trail log
      = s.trail log ++ [⟨s.generation + 1, text⟩] := by
    simp [trail, queue, beginChange]
  refine ⟨?_, fun x hlatest => ?_, fun x y hover => ?_⟩
  · rw [htrail, submitted_change, hcounted, ← Multiset.coe_add, ← Multiset.coe_add]
    exact add_le_add_left h.known _
  · rw [submitted_change, hcounted, List.getLast?_concat, Option.some.injEq] at hlatest
    rw [htrail, hlatest]
    exact .inl (List.mem_append_right _ (List.mem_singleton_self _))
  · rw [overtakes_snoc hpast] at hover
    rcases hover with hover | ⟨hreceive, -⟩
    · obtain ⟨hsubmitted, hnot⟩ := h.lost x y hover
      refine ⟨?_, fun hmem => ?_⟩
      · rw [submitted_change]
        exact List.mem_append_left _ hsubmitted
      · rw [htrail, List.mem_append, List.mem_singleton] at hmem
        rcases hmem with hmem | rfl
        · exact hnot hmem
        · have hle := generation_le_length_submitted hsubmitted
          simp only at hle
          omega
    · cases hreceive

/-- Every other snapshot is older than the latest one. -/
theorem generation_lt_latest (hlatest : (submitted past).getLast? = some x)
    (hy : y ∈ submitted past) (hother : y ≠ x) : y.generation < x.generation := by
  have hle : y.generation ≤ x.generation := by
    rw [generation_of_latest hlatest]
    exact generation_le_length_submitted hy
  refine Nat.lt_of_le_of_ne hle fun hsame => hother ?_
  have hnodup := nodup_generation (le_refl (submitted past : Multiset Snapshot))
  exact List.inj_on_of_nodup_map hnodup hy (List.mem_of_getLast? hlatest) hsame

/-- A snapshot is received, and the one that was waited with leaves the trail. If that was
the latest one, it is overtaken. -/
theorem Tracked.receive (h : Tracked resolve workers log past s)
    (hpast : run resolve workers past = some s) (hreceive : s.receive = some s') :
    Tracked resolve workers log (past ++ [.receive]) s' := by
  obtain ⟨z, changes, hchanges, rfl⟩ := receive_eq hreceive
  have hsplit : (s.trail log : Multiset Snapshot)
      = ↑s.pending.toList + ↑(State.trail log { s with changes, pending := some z }) := by
    simp only [trail, queue, hchanges, Option.toList_some, ← Multiset.coe_add]
    rw [← Multiset.cons_coe, ← Multiset.singleton_add, Multiset.coe_singleton]
    abel
  have hz : z ∈ State.trail log { s with changes, pending := some z } := by
    simp [trail, queue]
  have hknown : (State.trail log { s with changes, pending := some z } : Multiset Snapshot)
      ≤ submitted past := by
    refine le_trans ?_ h.known
    rw [hsplit]
    exact Multiset.le_add_left _ _
  -- No snapshot is on the trail twice, so what leaves it is gone from it.
  have hleaves : ∀ x, s.pending = some x →
      x ∉ State.trail log { s with changes, pending := some z } := by
    intro x hx hmem
    have hnodup := Multiset.coe_nodup.mpr (nodup_generation h.known).of_map
    rw [hsplit, hx, Option.toList_some, Multiset.coe_singleton, Multiset.singleton_add,
      Multiset.nodup_cons] at hnodup
    exact hnodup.1 hmem
  refine ⟨?_, fun x hlatest => ?_, fun x y hover => ?_⟩
  · rw [submitted_other past rfl]
    exact hknown
  · rw [submitted_other past rfl] at hlatest
    rcases h.kept x hlatest with hmem | ⟨y, hover⟩
    · rw [← Multiset.mem_coe, hsplit, Multiset.mem_add] at hmem
      rcases hmem with hpending | hrest
      · have hx : s.pending = some x := Option.mem_toList.mp hpending
        have hother : z ≠ x := fun hsame => hleaves x hx (hsame ▸ hz)
        have hlt := generation_lt_latest hlatest (Multiset.mem_of_le hknown hz) hother
        exact .inr ⟨z, (overtakes_snoc hpast).mpr (.inr ⟨rfl, hx, changes, hchanges, hlt⟩)⟩
      · exact .inl hrest
    · exact .inr ⟨y, (overtakes_snoc hpast).mpr (.inl hover)⟩
  · rw [submitted_other past rfl]
    rcases (overtakes_snoc hpast).mp hover with hover | ⟨-, hpending, -⟩
    · obtain ⟨hsubmitted, hnot⟩ := h.lost x y hover
      refine ⟨hsubmitted, fun hmem => hnot ?_⟩
      rw [← Multiset.mem_coe, hsplit]
      exact Multiset.mem_add.mpr (.inr hmem)
    · refine ⟨Multiset.mem_of_le h.known ?_, hleaves x hpending⟩
      rw [hsplit, hpending]
      exact Multiset.mem_add.mpr (.inl (Multiset.mem_singleton_self x))

theorem Tracked.step (h : Tracked resolve workers log past s)
    (hpast : run resolve workers past = some s) (hrunning : s.dispatching = true)
    (hstaffed : s.Staffed) (hstep : s.step resolve a = some s') :
    Tracked resolve workers (log ++ s'.work.drop s.work.length) (past ++ [a]) s' := by
  cases a with
  | change text =>
    rw [nothing_dispatched hstep (by simp), List.append_nil]
    cases hstep
    exact h.change hpast text
  | send i =>
    rw [nothing_dispatched hstep (by simp), List.append_nil]
    obtain ⟨z, hz, rfl⟩ := sendChange_eq hstep hrunning
    refine h.moved hpast rfl (by simp) ?_
    simp only [trail, queue, ← Multiset.coe_add, coe_eq_cons_eraseIdx hz,
      ← Multiset.singleton_add, Multiset.coe_singleton]
    abel
  | receive =>
    rw [nothing_dispatched hstep (by simp), List.append_nil]
    exact h.receive hpast hstep
  | timeout =>
    obtain ⟨z, hz, rfl⟩ := timeout_eq hstep hstaffed
    refine h.moved hpast rfl (by simp) ?_
    simp [trail, queue, hz]
  | take w =>
    rw [nothing_dispatched hstep (by simp), List.append_nil]
    obtain ⟨request, work, -, -, rfl⟩ := takeWork_eq hstep
    exact h.moved hpast rfl (by simp) rfl
  | finish w sinkBreaks =>
    rw [nothing_dispatched hstep (by simp), List.append_nil]
    obtain ⟨request, new, gate, calls, -, -, rfl⟩ := finishWork_frame hstep
    exact h.moved hpast rfl (by simp) rfl

theorem Tracked.accounted (h : Tracked resolve workers log past s)
    (hpast : run resolve workers past = some s) (hstaffed : s.Staffed) : Accounted log s := by
  refine .of_submitted (dispatching_of_staffed hpast hstaffed) hstaffed (le_trans ?_ h.known)
    (sound_run hpast).counted
  rw [trail, ← Multiset.coe_add]
  exact Multiset.le_add_right _ _

/-- With a worker left, the trail leads from every submitted snapshot to the sink. -/
theorem tracked_and_shown_run (hrun : run resolve workers actions = some s)
    (hstaffed : s.Staffed) :
    Tracked resolve workers (dispatched resolve workers actions) actions s
      ∧ Shown resolve (dispatched resolve workers actions) s := by
  refine run_induction (P := fun actions s => s.Staffed →
    Tracked resolve workers (dispatched resolve workers actions) actions s
      ∧ Shown resolve (dispatched resolve workers actions) s) ?_ ?_ hrun hstaffed
  · intro _
    exact ⟨tracked_start, shown_start⟩
  · intro past a s s' hpast ih hstep hstaffed
    have hbefore : s.Staffed := hstaffed.of_step hstep
    have hrunning := dispatching_of_staffed hpast hbefore
    obtain ⟨htracked, hshown⟩ := ih hbefore
    rw [dispatched_snoc hpast hstep]
    exact ⟨htracked.step hpast hrunning hbefore hstep,
      hshown.step (htracked.accounted hpast hbefore) (sound_run hpast) hstep⟩

/-- At rest, the latest text was dispatched exactly if nothing overtook it. -/
theorem dispatched_iff_not_overtaken (hrun : run resolve workers actions = some s)
    (hstaffed : s.Staffed) (hquiet : s.Quiet) (hlatest : (submitted actions).getLast? = some x) :
    (∃ request ∈ dispatched resolve workers actions, request.snapshot = x)
      ↔ ¬ ∃ y, Overtakes resolve workers actions y x := by
  obtain ⟨htracked, -⟩ := tracked_and_shown_run hrun hstaffed
  have htrail : s.trail (dispatched resolve workers actions)
      = (dispatched resolve workers actions).map Request.snapshot := by
    rw [trail, queue, hquiet.pending, hquiet.changes, hquiet.inFlight]
    simp
  have hmem : x ∈ s.trail (dispatched resolve workers actions)
      ↔ ∃ request ∈ dispatched resolve workers actions, request.snapshot = x := by
    rw [htrail, List.mem_map]
  rw [← hmem]
  constructor
  · rintro hon ⟨y, hover⟩
    exact (htracked.lost x y hover).2 hon
  · intro hnever
    exact (htracked.kept x hlatest).resolve_right hnever

/-- At rest, the latest text is what the sink was shown last if it was dispatched. -/
theorem shown_of_dispatched (hrun : run resolve workers actions = some s) (hstaffed : s.Staffed)
    (hquiet : s.Quiet) (hlatest : (submitted actions).getLast? = some x) {request : Request}
    (hrequest : request ∈ dispatched resolve workers actions) (hx : request.snapshot = x) :
    ∃ earlier, s.calls = ⟨request.sequence, resolve x.text⟩ :: earlier := by
  obtain ⟨-, hshown⟩ := tracked_and_shown_run hrun hstaffed
  have hcurrent : request.snapshot.generation = s.generation := by
    rw [hx, generation_of_latest hlatest, (sound_run hrun).counted]
  rcases hshown.current request hrequest hcurrent with hway | hcall
  · rw [hquiet.requests_eq] at hway
    exact absurd hway (Multiset.notMem_zero _)
  · rw [hx] at hcall
    exact ⟨s.calls.tail, List.eq_cons_of_mem_head? hcall⟩

/-! ## Overtaking needs an overlap -/

/-- Wherever a snapshot stands behind that of a later text, the two changes overlapped. -/
structure Lined (resolve : Resolver) (workers : Nat) (past : List Action) (s : State) : Prop where
  inFlight : ∀ x ∈ s.queue, ∀ y ∈ s.inFlight, y.generation < x.generation →
    Overlaps resolve workers past y x
  sent : (s.pending.toList ++ s.changes).Pairwise fun x y => y.generation < x.generation →
    Overlaps resolve workers past y x

private theorem mem_carried_of_mem_queue (h : x ∈ s.queue) : x ∈ s.carried := by
  refine Multiset.mem_add.mpr (.inl ?_)
  simp only [queue, List.mem_append] at h
  simp only [waiting, Multiset.mem_add, Multiset.mem_coe]
  tauto

/-- An action other than a change, that leaves an end of what was sent. -/
theorem Lined.dropped (h : Lined resolve workers past s) (hflight : s'.inFlight = s.inFlight)
    (hsent : (s'.pending.toList ++ s'.changes).Sublist (s.pending.toList ++ s.changes)) :
    Lined resolve workers (past ++ [a]) s' := by
  refine ⟨fun x hx y hy hlt => ?_, ?_⟩
  · rw [hflight] at hy
    refine (h.inFlight x ?_ y hy hlt).append [a]
    rw [queue, hflight] at hx
    exact (hsent.append (List.Sublist.refl _)).subset hx
  · refine (h.sent.sublist hsent).imp fun hover hlt => ?_
    exact (hover hlt).append [a]

/-- A change overlaps with those that are in flight when it begins. -/
theorem Lined.change (h : Lined resolve workers past s)
    (hpast : run resolve workers past = some s) (text : String) :
    Lined resolve workers (past ++ [.change text]) (s.beginChange text) := by
  refine ⟨fun x hx y hy hlt => ?_, ?_⟩
  · have hx' : x ∈ s.queue ∨ x = ⟨s.generation + 1, text⟩ := by
      simpa [queue, beginChange, or_assoc] using hx
    have hy' : y ∈ s.inFlight ∨ y = ⟨s.generation + 1, text⟩ := by
      simpa [beginChange] using hy
    rcases hx' with hold | rfl
    · rcases hy' with hflight | rfl
      · exact (h.inFlight x hold y hflight hlt).append _
      · -- Nothing is newer than what comes in.
        have hle := (sound_run hpast).generation_le (mem_carried_of_mem_queue hold)
        simp only at hlt
        omega
    · rcases hy' with hflight | rfl
      · exact ⟨past, [], s, rfl, hpast, rfl, hflight⟩
      · exact absurd hlt (Nat.lt_irrefl _)
  · refine h.sent.imp fun hover hlt => ?_
    exact (hover hlt).append _

/-- What is sent stands behind all that was sent before. -/
theorem Lined.send (h : Lined resolve workers past s) {i : Nat}
    (hsend : s.sendChange i = some s') : Lined resolve workers (past ++ [.send i]) s' := by
  obtain ⟨z, changes, hz, hchanges, rfl⟩ := sendChange_cases hsend
  have hmem : z ∈ s.inFlight := List.mem_of_getElem? hz
  have hleft : ∀ y, y ∈ s.inFlight.eraseIdx i → y ∈ s.inFlight := fun y hy =>
    (List.eraseIdx_sublist s.inFlight i).subset hy
  refine ⟨fun x hx y hy hlt => ?_, ?_⟩
  · refine (h.inFlight x ?_ y (hleft y hy) hlt).append _
    simp only [queue, List.mem_append] at hx ⊢
    rcases hx with (hpending | hsent) | hflight
    · exact .inl (.inl hpending)
    · rcases hchanges with rfl | rfl
      · rcases List.mem_append.mp hsent with hsent | hnew
        · exact .inl (.inr hsent)
        · exact .inr (List.mem_singleton.mp hnew ▸ hmem)
      · exact .inl (.inr hsent)
    · exact .inr (hleft x hflight)
  · rcases hchanges with rfl | rfl
    · show (s.pending.toList ++ (s.changes ++ [z])).Pairwise _
      rw [← List.append_assoc, List.pairwise_append]
      refine ⟨h.sent.imp fun hover hlt => (hover hlt).append _, List.pairwise_singleton _ _, ?_⟩
      intro x hx y hy hlt
      rw [List.mem_singleton] at hy
      subst hy
      exact (h.inFlight x (List.mem_append_left _ hx) _ hmem hlt).append _
    · exact h.sent.imp fun hover hlt => (hover hlt).append _

theorem Lined.step (h : Lined resolve workers past s)
    (hpast : run resolve workers past = some s) (hstep : s.step resolve a = some s') :
    Lined resolve workers (past ++ [a]) s' := by
  cases a with
  | change text =>
    cases hstep
    exact h.change hpast text
  | send i => exact h.send hstep
  | receive =>
    obtain ⟨z, changes, hchanges, rfl⟩ := receive_eq hstep
    refine h.dropped rfl ?_
    rw [hchanges]
    exact List.sublist_append_right _ _
  | timeout =>
    obtain ⟨z, -, ⟨-, rfl⟩ | ⟨-, rfl⟩⟩ := timeout_cases hstep
    · exact h.dropped rfl (List.nil_sublist _)
    · exact h.dropped rfl (List.sublist_append_right _ _)
  | take w =>
    obtain ⟨request, work, -, -, rfl⟩ := takeWork_eq hstep
    exact h.dropped rfl (List.Sublist.refl _)
  | finish w sinkBreaks =>
    obtain ⟨request, new, gate, calls, -, -, rfl⟩ := finishWork_frame hstep
    exact h.dropped rfl (List.Sublist.refl _)

/-- Along every run, snapshots that are out of order belong to changes that overlapped. -/
private theorem lined_run (hrun : run resolve workers actions = some s) :
    Lined resolve workers actions s := by
  refine run_induction (P := Lined resolve workers) ⟨?_, .nil⟩ ?_ hrun
  · intro x _ y hy
    cases hy
  · intro past a s s' hpast ih hstep
    exact ih.step hpast hstep

/-- A snapshot overtakes another one only if the two changes overlapped. -/
theorem Overtakes.overlaps (h : Overtakes resolve workers actions y x) :
    Overlaps resolve workers actions y x := by
  obtain ⟨before, after, m, changes, rfl, hbefore, hpending, hchanges, hlt⟩ := h
  have hsent := (lined_run hbefore).sent
  rw [hpending, hchanges, Option.toList_some, List.singleton_append, List.pairwise_cons] at hsent
  exact (hsent.1 y (List.mem_cons_self ..) hlt).append _

/-- **The latest text is shown unless it was overtaken.** The sink never breaks off. Then
one snapshot overtakes another only if its change was in flight when the other one began. At
rest the latest text was dispatched exactly if nothing overtook it, and if it was, then the
last call of the sink is for it, with what the resolver says. -/
theorem latest_shown_unless_overtaken (hrun : run resolve workers actions = some s)
    (hsink : SinkHolds actions) :
    (∀ x y, Overtakes resolve workers actions y x → Overlaps resolve workers actions y x)
    ∧ ∀ x, s.Quiet → (submitted actions).getLast? = some x →
        ((∃ request ∈ dispatched resolve workers actions, request.snapshot = x)
            ↔ ¬ ∃ y, Overtakes resolve workers actions y x)
        ∧ ∀ request ∈ dispatched resolve workers actions, request.snapshot = x →
            ∃ earlier, s.calls = ⟨request.sequence, resolve x.text⟩ :: earlier := by
  have hstaffed := staffed_of_sinkHolds hrun hsink
  refine ⟨fun x y hover => hover.overlaps, fun x hquiet hlatest => ⟨?_, ?_⟩⟩
  · exact dispatched_iff_not_overtaken hrun hstaffed hquiet hlatest
  · intro request hrequest hx
    exact shown_of_dispatched hrun hstaffed hquiet hlatest hrequest hx

/-- Two changes that overlap and are sent in the order in which they began. -/
def parallel : List Action :=
  [.change "a", .change "b", .send 0, .send 0, .receive, .receive, .timeout, .take 0,
    .finish 0 false]

/-- Neither change overtakes the other, and the later text is shown. -/
theorem parallel_shows_latest :
    ∃ s, run nonEmptyOnly 1 parallel = some s ∧ SinkHolds parallel ∧ s.Quiet
      ∧ (¬ ∃ y, Overtakes nonEmptyOnly 1 parallel y ⟨2, "b"⟩)
      ∧ ∃ earlier, s.calls = ⟨1, nonEmptyOnly "b"⟩ :: earlier := by
  obtain ⟨s, hrun, hquiet⟩ : ∃ s, run nonEmptyOnly 1 parallel = some s ∧ s.Quiet :=
    ⟨_, rfl, ⟨rfl, rfl, rfl, rfl, by decide⟩⟩
  have hsink : SinkHolds parallel := by
    intro w hw
    simp [parallel] at hw
  have hmem : (⟨1, ⟨2, "b"⟩⟩ : Request) ∈ dispatched nonEmptyOnly 1 parallel :=
    List.mem_singleton.mpr rfl
  obtain ⟨-, hrest⟩ := latest_shown_unless_overtaken hrun hsink
  obtain ⟨hiff, hshown⟩ := hrest ⟨2, "b"⟩ hquiet rfl
  exact ⟨s, hrun, hsink, hquiet, hiff.mp ⟨_, hmem, rfl⟩, hshown _ hmem rfl⟩

/-- The same changes, sent the other way round. -/
def crossing : List Action :=
  [.change "a", .change "b", .send 1, .send 0, .receive, .receive, .timeout, .take 0,
    .finish 0 false]

/-- The dispatcher drops the second text for the first one, and the sink is never called:
the highlighter is at rest, and nothing of the latest text was ever resolved. -/
theorem crossing_loses_latest :
    ∃ s, run nonEmptyOnly 1 crossing = some s ∧ SinkHolds crossing ∧ s.Quiet
      ∧ s.dispatching = true ∧ (submitted crossing).getLast? = some ⟨2, "b"⟩
      ∧ Overtakes nonEmptyOnly 1 crossing ⟨1, "a"⟩ ⟨2, "b"⟩
      ∧ dispatched nonEmptyOnly 1 crossing = [⟨1, ⟨1, "a"⟩⟩] ∧ s.calls = [] := by
  refine ⟨_, rfl, ?_, ⟨rfl, rfl, rfl, rfl, by decide⟩, rfl, rfl, ?_, rfl, rfl⟩
  · intro w hw
    simp [crossing] at hw
  · exact ⟨[.change "a", .change "b", .send 1, .send 0, .receive],
      [.timeout, .take 0, .finish 0 false], _, [], rfl, rfl, rfl, rfl, by decide⟩

end Classdesk.Highlight.State
