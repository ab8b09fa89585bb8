import Classdesk.Editor.Session

/-!
# What a step of a session does

A step changes its desk in place, and nothing undoes a change when the step fails later
on. That a fault finds the desk as it was is therefore a fact about each step, about what
it does before what else. It is said once, for all actions, together with what they do
when they succeed:

> `perform_effect`: an action fails and changes nothing, or has its one effect.

Everything that holds along a run of actions is derived from this.
-/

namespace Classdesk.Editor

/-! ## Steps in a row -/

namespace Step

variable {α β ε : Type} (d : Desk)

/-- The second step starts at the desk that the first one left; after a fault there is no
second step. -/
@[simp] theorem runAt_bind (x : Step α) (f : α → Step β) :
    (x >>= f).runAt d
      = match x.runAt d with
        | (.ok a, d') => (f a).runAt d'
        | (.error fault, d') => (.error fault, d') := by
  show ExceptT.bindCont f (x.runAt d).1 (x.runAt d).2 = _
  obtain ⟨result, d'⟩ := x.runAt d
  cases result with
  | ok a => rfl
  | error fault => rfl

@[simp] theorem runAt_pure (a : α) : (pure a : Step α).runAt d = (.ok a, d) := rfl

@[simp] theorem runAt_throw (fault : EditFault) :
    (throw fault : Step α).runAt d = (.error fault, d) := rfl

@[simp] theorem runAt_get : (get : Step Desk).runAt d = (.ok d, d) := rfl

@[simp] theorem runAt_modify (change : Desk → Desk) :
    (modify change : Step Unit).runAt d = (.ok (), change d) := rfl

@[simp] theorem runAt_edit (change : Session → Session) :
    (edit change).runAt d = (.ok (), { d with session := change d.session }) := rfl

@[simp] theorem runAt_attempt_ok (a : α) (report : ε → EditFault) :
    (attempt (.ok a) report).runAt d = (.ok a, d) := rfl

@[simp] theorem runAt_attempt_error (fault : ε) (report : ε → EditFault) :
    (attempt (.error fault : Except ε α) report).runAt d = (.error (report fault), d) := rfl

end Step

namespace Desk

/-! ## The steps that can fail -/

variable (d : Desk)

/-- Loading fails and changes nothing, or takes over the text of the file and where it is. -/
theorem runAt_load (path : Path) :
    (∃ fault, (load path).runAt d = (.error fault, d))
      ∨ ∃ text, d.files.contentAt path = .ok (Text.Utf8.encode text)
        ∧ (load path).runAt d
          = (.ok (), { d with session :=
              { d.session with patchText := text, patchPath := some path, saved := true } }) := by
  cases hread : d.files.contentAt path with
  | error fault =>
    refine .inl ⟨.access (.file fault), ?_⟩
    simp [load, hread]
  | ok content =>
    cases htext : Text.Utf8.decode? content with
    | none =>
      refine .inl ⟨.access .notText, ?_⟩
      simp [load, hread, htext]
    | some text =>
      refine .inr ⟨text, ?_, ?_⟩
      · rw [Text.Utf8.decode?_eq_some_iff.mp htext]
      · simp [load, hread, htext]

/-- Saving fails and changes nothing, or stores the text and remembers where it is. -/
theorem runAt_saveAs (path : Path) :
    (∃ fault, (saveAs path).runAt d = (.error fault, d))
      ∨ ∃ files, d.files.store path (Text.Utf8.encode d.session.patchText) = .ok files
        ∧ (saveAs path).runAt d
          = (.ok (), ⟨{ d.session with patchPath := some path, saved := true }, files⟩) := by
  cases hstore : d.files.store path (Text.Utf8.encode d.session.patchText) with
  | error fault =>
    refine .inl ⟨.access (.file fault), ?_⟩
    simp [saveAs, hstore]
  | ok files =>
    refine .inr ⟨files, rfl, ?_⟩
    simp [saveAs, hstore]

/-- The four stages of a recomputation: patching, parsing, listing and decompiling. The
last three are those of `display`. -/
theorem runAt_recompute :
    (∃ fault, recompute.runAt d = (.error fault, d))
      ∨ ∃ patched shown,
        d.session.bench.patcher d.session.classBytes d.session.patchText = .ok patched
        ∧ d.session.bench.display patched = .ok shown
        ∧ recompute.runAt d = (.ok shown, { d with session := { d.session with shown } }) := by
  cases hpatch : d.session.bench.patcher d.session.classBytes d.session.patchText with
  | error failure =>
    refine .inl ⟨.patch failure, ?_⟩
    simp [recompute, hpatch]
  | ok patched =>
    cases hshown : d.session.bench.display patched with
    | error fault =>
      refine .inl ⟨fault, ?_⟩
      simp [recompute, hpatch, hshown]
    | ok shown =>
      refine .inr ⟨patched, shown, rfl, hshown, ?_⟩
      simp only [recompute, hpatch, hshown, Step.runAt_bind, Step.runAt_get,
        Step.runAt_attempt_ok, Step.runAt_edit, Step.runAt_pure]

/-! ## What an action does -/

/-- What an action comes to: an answer or a fault, and the desk behind it. -/
inductive Effect (d : Desk) : Action → Except EditFault Answer × Desk → Prop
  /-- A fault, and the desk as it was. -/
  | failed {action : Action} (fault : EditFault) : Effect d action (.error fault, d)
  | typed (text : String) :
    Effect d (.setText text) (.ok .done, { d with session := d.session.setText text })
  | brokeLine (offset : Nat) :
    Effect d (.breakLine offset) (.ok (.caret (d.session.breakLine offset).2),
      { d with session := (d.session.breakLine offset).1 })
  /-- The file held a text, which is the patch now. -/
  | loaded (path : Path) (text : String)
    (hread : d.files.contentAt path = .ok (Text.Utf8.encode text)) :
    Effect d (.load path) (.ok .done, { d with session :=
      { d.session with patchText := text, patchPath := some path, saved := true } })
  /-- The patch was written to the file that was asked for, or to the one it has. -/
  | stored {action : Action} (path : Path) (files : FileTree)
    (haction : action = .saveAs path ∨ action = .save ∧ d.session.patchPath = some path)
    (hstore : d.files.store path (Text.Utf8.encode d.session.patchText) = .ok files) :
    Effect d action
      (.ok .done, ⟨{ d.session with patchPath := some path, saved := true }, files⟩)
  /-- The class as it was could be patched, and the result displayed. -/
  | recomputed (patched : Bytes) (shown : Display)
    (hpatch : d.session.bench.patcher d.session.classBytes d.session.patchText = .ok patched)
    (hshown : d.session.bench.display patched = .ok shown) :
    Effect d .recompute (.ok (.shown shown), { d with session := { d.session with shown } })

/-- An action fails and changes nothing, or has its one effect. -/
theorem perform_effect (action : Action) : Effect d action (d.perform action) := by
  unfold perform
  cases action with
  | setText text =>
    simp only [step, Step.runAt_bind, Step.runAt_edit, Step.runAt_pure]
    exact .typed text
  | breakLine offset =>
    simp only [step, Step.runAt_bind, Step.runAt_get, Step.runAt_edit, Step.runAt_pure]
    exact .brokeLine offset
  | load path =>
    simp only [step, Step.runAt_bind, Step.runAt_pure]
    rcases runAt_load d path with ⟨fault, hfail⟩ | ⟨text, hread, hdone⟩
    · rw [hfail]
      exact .failed fault
    · rw [hdone]
      exact .loaded path text hread
  | save =>
    simp only [step, save, Step.runAt_bind, Step.runAt_get, Step.runAt_pure]
    cases hpath : d.session.patchPath with
    | none => exact .failed .noPatchPath
    | some path =>
      simp only
      rcases runAt_saveAs d path with ⟨fault, hfail⟩ | ⟨files, hstore, hdone⟩
      · rw [hfail]
        exact .failed fault
      · rw [hdone]
        exact .stored path files (.inr ⟨rfl, hpath⟩) hstore
  | saveAs path =>
    simp only [step, Step.runAt_bind, Step.runAt_pure]
    rcases runAt_saveAs d path with ⟨fault, hfail⟩ | ⟨files, hstore, hdone⟩
    · rw [hfail]
      exact .failed fault
    · rw [hdone]
      exact .stored path files (.inl rfl) hstore
  | recompute =>
    simp only [step, Step.runAt_bind, Step.runAt_pure]
    rcases runAt_recompute d with ⟨fault, hfail⟩ | ⟨patched, shown, hpatch, hshown, hdone⟩
    · rw [hfail]
      exact .failed fault
    · rw [hdone]
      exact .recomputed patched shown hpatch hshown

end Desk

end Classdesk.Editor
