import Classdesk.Proofs.Editor.Steps
import Classdesk.Proofs.Reading
import Classdesk.Standin.BytePatch

/-!
# Patches never stack

A session displays its class with the patch of the latest recomputation that succeeded,
or without a patch if there was none. The patch is applied to the class as it was, whatever
was displayed before. `patches_never_stack` says this of every run: of everything the user
does, whether or not it fails, while others may change the files at any time.

The invariant names the text that was applied last:

> `Faithful bench bytes applied d`: the class of the desk is `bytes`, and its display is
> what `bytes` with the patch `applied` is displayed as.

An edit leaves it alone, a recomputation that succeeds makes the current text the one that
was applied, and one that fails changes nothing.
-/

namespace Classdesk.Editor

/-- What can happen at a desk. -/
inductive Event
  | user (action : Action)
  /-- Somebody else changes the files. -/
  | others (files : FileTree)

/-- What a class is displayed as, with a patch or without one. -/
def Workbench.displayPatched (bench : Workbench) (bytes : Bytes) :
    Option String → Except EditFault Display
  | none => bench.display bytes
  | some patch => do
    let patched ← (bench.patcher bytes patch).mapError .patch
    bench.display patched

namespace Desk

/-- The desk behind an event. -/
def after (d : Desk) : Event → Desk
  | .user action => (d.perform action).2
  | .others files => { d with files }

/-- The desk behind some events. -/
def afterAll (d : Desk) (events : List Event) : Desk := events.foldl after d

/-- Whether an event is a recomputation that succeeds. -/
def recomputes (d : Desk) : Event → Bool
  | .user .recompute => (d.perform .recompute).1.isOk
  | _ => false

/-- The patch of the latest recomputation that succeeded, if one did. -/
def appliedText (d : Desk) : List Event → Option String
  | [] => none
  | e :: events =>
    ((d.after e).appliedText events).or
      (if d.recomputes e then some d.session.patchText else none)

/-! ## One event -/

variable {bench : Workbench} {bytes : Bytes} {applied : Option String} {d : Desk}

/-- The display of a desk shows its class with the patch that was applied last. -/
structure Faithful (bench : Workbench) (bytes : Bytes) (applied : Option String) (d : Desk) :
    Prop where
  bench_eq : d.session.bench = bench
  classBytes_eq : d.session.classBytes = bytes
  displayed : bench.displayPatched bytes applied = .ok d.session.shown

/-- The patch and the files are nothing to the display. -/
theorem Faithful.of_session {d' : Desk} (h : Faithful bench bytes applied d)
    (hbench : d'.session.bench = d.session.bench)
    (hbytes : d'.session.classBytes = d.session.classBytes)
    (hshown : d'.session.shown = d.session.shown) : Faithful bench bytes applied d' := by
  refine ⟨?_, ?_, ?_⟩
  · rw [hbench]
    exact h.bench_eq
  · rw [hbytes]
    exact h.classBytes_eq
  · rw [hshown]
    exact h.displayed

/-- Editing the text does not touch what is displayed. -/
theorem Faithful.setText (h : Faithful bench bytes applied d) (text : String) :
    Faithful bench bytes applied { d with session := d.session.setText text } := by
  unfold Session.setText
  split
  next => exact h
  next => exact h.of_session rfl rfl rfl

/-- A recomputation answers with what the class as it was and the current text give, and
with nothing else. -/
theorem Faithful.perform_recompute (h : Faithful bench bytes applied d) :
    (d.perform .recompute).1
      = (bench.displayPatched bytes (some d.session.patchText)).map .shown := by
  have hbench := h.bench_eq
  have hbytes := h.classBytes_eq
  subst hbench hbytes
  unfold perform Workbench.displayPatched
  simp only [step, recompute, Step.runAt_bind, Step.runAt_get, Step.runAt_pure]
  cases d.session.bench.patcher d.session.classBytes d.session.patchText with
  | error failure => rfl
  | ok patched =>
    show _ = (d.session.bench.display patched).map Answer.shown
    simp only [Step.runAt_attempt_ok]
    cases d.session.bench.display patched with
    | error fault => rfl
    | ok shown => rfl

/-- The patch that an event applies, if it does, or else the one applied before. -/
theorem Faithful.after (h : Faithful bench bytes applied d) (e : Event) :
    Faithful bench bytes
      ((if d.recomputes e then some d.session.patchText else none).or applied) (d.after e) := by
  cases e with
  | others files => exact h.of_session rfl rfl rfl
  | user action =>
    have heffect := d.perform_effect action
    show Faithful bench bytes _ (d.perform action).2
    generalize hout : d.perform action = out at heffect ⊢
    cases heffect with
    | failed fault =>
      have hnone : d.recomputes (.user action) = false := by
        cases action with
        | recompute =>
          unfold recomputes
          rw [hout]
          rfl
        | _ => rfl
      rw [hnone]
      exact h
    | typed text => exact h.setText text
    | brokeLine offset => exact h.setText _
    | loaded path text hread => exact h.of_session rfl rfl rfl
    | stored path files haction hstore =>
      have hnone : d.recomputes (.user action) = false := by
        rcases haction with rfl | ⟨rfl, -⟩
        · rfl
        · rfl
      rw [hnone]
      exact h.of_session rfl rfl rfl
    | recomputed patched shown hpatch hshown =>
      have hsome : d.recomputes (.user .recompute) = true := by
        unfold recomputes
        rw [hout]
        rfl
      rw [hsome]
      refine ⟨h.bench_eq, h.classBytes_eq, ?_⟩
      rw [h.bench_eq, h.classBytes_eq] at hpatch
      rw [h.bench_eq] at hshown
      simp only [if_true, Option.some_or, Workbench.displayPatched, hpatch]
      exact hshown

/-! ## Runs -/

/-- A run ends faithful to the latest text that was applied in it. -/
theorem Faithful.afterAll (h : Faithful bench bytes applied d) (events : List Event) :
    Faithful bench bytes ((d.appliedText events).or applied) (d.afterAll events) := by
  induction events generalizing d applied with
  | nil => exact h
  | cons e events ih =>
    have hrest := ih (h.after e)
    rwa [← Option.or_assoc] at hrest

/-- A session opens with its class displayed as it is. -/
private theorem faithful_ofBytes {s : Session} (hopen : Session.ofBytes bench bytes = .ok s)
    (files : FileTree) : Faithful bench bytes none ⟨s, files⟩ := by
  obtain ⟨shown, hshown, hs⟩ := Reading.except_bind_eq_ok.mp hopen
  cases hs
  exact ⟨rfl, rfl, hshown⟩

/-- A fault finds the desk as it was. -/
theorem perform_of_fault {action : Action} {fault : EditFault}
    (hfault : (d.perform action).1 = .error fault) : (d.perform action).2 = d := by
  have heffect := d.perform_effect action
  generalize d.perform action = out at heffect hfault
  cases heffect with
  | failed => rfl
  | typed | brokeLine | loaded | stored | recomputed => cases hfault

/-- What is displayed behind a recomputation that succeeds. -/
theorem Faithful.displayed_recompute (h : Faithful bench bytes applied d)
    (hsuccess : d.recomputes (.user .recompute) = true) :
    bench.displayPatched bytes (some d.session.patchText)
      = .ok (d.after (.user .recompute)).session.shown := by
  have hafter := (h.after (.user .recompute)).displayed
  rwa [hsuccess, if_pos rfl, Option.some_or] at hafter

/-- **Patches never stack, and failures change nothing.** Behind any events the class is
the one the session was opened with, and the display shows it with the patch of the latest
recomputation that succeeded. What fails leaves everything as it was. A recomputation
depends on the class and the current text only, so that sessions on one class which end
with the same patch show the same. -/
theorem patches_never_stack {s : Session} {files : FileTree} {events : List Event}
    (hopen : Session.ofBytes bench bytes = .ok s) (hd : (Desk.mk s files).afterAll events = d) :
    d.session.classBytes = bytes
    ∧ bench.displayPatched bytes ((Desk.mk s files).appliedText events) = .ok d.session.shown
    ∧ (∀ action fault, (d.perform action).1 = .error fault → (d.perform action).2 = d)
    ∧ (d.perform .recompute).1
        = (bench.displayPatched bytes (some d.session.patchText)).map .shown
    ∧ ∀ files' events' d', (Desk.mk s files').afterAll events' = d' →
        d.recomputes (.user .recompute) = true → d'.recomputes (.user .recompute) = true →
        d.session.patchText = d'.session.patchText →
        (d.after (.user .recompute)).session.shown
          = (d'.after (.user .recompute)).session.shown := by
  have hfaithful : ∀ files events, Faithful bench bytes
      ((Desk.mk s files).appliedText events) ((Desk.mk s files).afterAll events) := by
    intro files events
    have hrun := (faithful_ofBytes hopen files).afterAll events
    rwa [Option.or_none] at hrun
  have hhere := hfaithful files events
  rw [hd] at hhere
  refine ⟨hhere.classBytes_eq, hhere.displayed, fun action fault => perform_of_fault,
    hhere.perform_recompute, ?_⟩
  intro files' events' d' hd' hsuccess hsuccess' hsame
  have hthere := hfaithful files' events'
  rw [hd'] at hthere
  have hshown := hhere.displayed_recompute hsuccess
  rw [hsame, hthere.displayed_recompute hsuccess', Except.ok.injEq] at hshown
  exact hshown.symm

/-- A stored class that is called `A`. -/
def storedA : Bytes :=
  [0xCA, 0xFE, 0xBA, 0xBE, 0, 0, 0, 52, 0, 3, 1, 0, 1, 0x41, 7, 0, 1, 0, 0x20, 0, 2,
    0, 0, 0, 0, 0, 0, 0, 0, 0, 0]

/-- What applies byte patches and lists the result. -/
def plainBench : Workbench := ⟨Standin.BytePatch.patcher, none, .standard⟩

/-- The class is renamed, and then renamed again from its new name, which it does not have.
Saving fails too. -/
def renamedTwice : List Event :=
  [.user (.setText "replace A B"), .user .recompute, .user (.setText "replace B C"),
    .others (.empty ["home"]), .user .recompute, .user .save]

/-- The second renaming fails on the class as it was, and the first stays displayed. -/
theorem renamedTwice_never_stacks :
    ∃ s d, Session.ofBytes plainBench storedA = .ok s
      ∧ (Desk.mk s (.empty [])).afterAll renamedTwice = d
      ∧ d.session.classBytes = storedA
      ∧ plainBench.displayPatched storedA (some "replace A B") = .ok d.session.shown := by
  have happlied : ((Session.ofBytes plainBench storedA).toOption.map fun s =>
      (Desk.mk s (.empty [])).appliedText renamedTwice) = some (some "replace A B") := by
    decide +kernel
  cases hopen : Session.ofBytes plainBench storedA with
  | error fault =>
    rw [hopen] at happlied
    cases happlied
  | ok s =>
    obtain ⟨hbytes, hshown, -⟩ := patches_never_stack hopen
      (rfl : (Desk.mk s (.empty [])).afterAll renamedTwice = _)
    rw [hopen] at happlied
    simp only [Except.toOption, Option.map_some, Option.some.injEq] at happlied
    rw [happlied] at hshown
    exact ⟨s, _, rfl, rfl, hbytes, hshown⟩

end Desk

end Classdesk.Editor
