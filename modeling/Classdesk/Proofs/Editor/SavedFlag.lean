import Classdesk.Proofs.Editor.Recomputation
import Classdesk.Proofs.Files.Storing

/-!
# The saved flag never lies

A session says whether its patch is saved. It does so by a flag, which is set and cleared
along with the text and the path of the patch, and never looks at the file. That the flag is
right all the same is an invariant of the session and the files together:

> `Desk.Honest`: if the patch counts as saved, the file it belongs to holds exactly its text,
> or it belongs to no file and is empty.

Typing clears the flag unless nothing changes. Loading and saving set it together with the
path, and `FileTree.contentAt_store` says that the file at that path then holds the text. A
step that fails changes nothing, neither at the session nor at the files.
-/

namespace Classdesk.Editor

/-- A session that was just opened. -/
inductive Session.Opened : Session → Prop
  | ofBytes {bench : Workbench} {bytes : Bytes} {s : Session}
    (h : Session.ofBytes bench bytes = .ok s) : Opened s
  | ofSource {bench : Workbench} {files : FileTree} {source : ClassSource} {s : Session}
    (h : Session.ofSource bench files source = .ok s) : Opened s

/-- A session opens without a patch. -/
private theorem Session.noPatch_of_ofBytes {bench : Workbench} {bytes : Bytes} {s : Session}
    (h : Session.ofBytes bench bytes = .ok s) : s.patchPath = none ∧ s.patchText = "" := by
  obtain ⟨shown, -, hs⟩ := Reading.except_bind_eq_ok.mp h
  cases hs
  exact ⟨rfl, rfl⟩

/-- No patch was loaded or typed. -/
theorem Session.Opened.noPatch {s : Session} (h : s.Opened) :
    s.patchPath = none ∧ s.patchText = "" := by
  cases h with
  | ofBytes hopen => exact noPatch_of_ofBytes hopen
  | ofSource hopen =>
    obtain ⟨bytes, -, hopen⟩ := Reading.except_bind_eq_ok.mp hopen
    obtain ⟨s, hs, hpath⟩ := Reading.except_bind_eq_ok.mp hopen
    cases hpath
    obtain ⟨hnone, htext⟩ := noPatch_of_ofBytes hs
    exact ⟨hnone, htext⟩

namespace Desk

/-- The patch counts as saved only if its file holds its text, or there is neither. -/
def Honest (d : Desk) : Prop :=
  d.session.saved = true →
    (∃ path, d.session.patchPath = some path
      ∧ d.files.contentAt path = .ok (Text.Utf8.encode d.session.patchText))
    ∨ d.session.patchPath = none ∧ d.session.patchText = ""

variable {d : Desk}

/-! ## One step -/

/-- A changed text is no longer marked as saved. -/
theorem Honest.setText (h : d.Honest) (text : String) :
    Honest { d with session := d.session.setText text } := by
  unfold Session.setText
  split
  next => exact h
  next =>
    intro hsaved
    cases hsaved

/-- No action of the user makes the mark lie. -/
theorem Honest.perform (h : d.Honest) (action : Action) : Honest (d.perform action).2 := by
  -- Only what an action did matters here, and a failed one did nothing.
  have heffect := d.perform_effect action
  generalize d.perform action = out at heffect
  cases heffect with
  | failed fault => exact h
  | typed text => exact h.setText text
  | brokeLine offset => exact h.setText _
  | loaded path text hread => exact fun _ => .inl ⟨path, rfl, hread⟩
  | stored path files haction hstore =>
    exact fun _ => .inl ⟨path, rfl, FileTree.contentAt_store hstore⟩
  | recomputed patched shown hpatch hshown => exact h

private theorem setText_saved (s : Session) {text : String}
    (h : (s.setText text).patchText ≠ s.patchText) : (s.setText text).saved = false := by
  unfold Session.setText at h ⊢
  split
  next heq =>
    rw [if_pos heq] at h
    exact absurd rfl h
  next => rfl

/-- What changes the text by itself, and not by reading a file, clears the flag. -/
theorem perform_saved {action : Action} (haction : ∀ path, action ≠ .load path)
    (htext : (d.perform action).2.session.patchText ≠ d.session.patchText) :
    (d.perform action).2.session.saved = false := by
  have heffect := d.perform_effect action
  generalize d.perform action = out at heffect htext ⊢
  cases heffect with
  | typed text => exact setText_saved d.session htext
  | brokeLine offset => exact setText_saved d.session htext
  | loaded path text hread => exact absurd rfl (haction path)
  | failed | stored | recomputed => exact absurd rfl htext

/-! ## Runs -/

/-- A run of actions keeps the mark honest. -/
theorem Honest.run (h : d.Honest) (actions : List Action) : (d.run actions).Honest := by
  induction actions generalizing d with
  | nil => exact h
  | cons action actions ih => exact ih (h.perform action)

private theorem honest_opened {s : Session} (h : s.Opened) (files : FileTree) : Honest ⟨s, files⟩ :=
  fun _ => .inr h.noPatch

/-- **The saved flag never lies.** Whatever is done in a session, and whether or not it
fails: if the patch counts as saved, the file at its path holds exactly its text, or it has no
path and is empty. And a text that changes without being read from a file is not saved. -/
theorem saved_patch_is_stored {s : Session} {files : FileTree} {actions : List Action}
    (hopen : s.Opened) (hd : (Desk.mk s files).run actions = d) :
    (d.session.saved = true →
      (∃ path, d.session.patchPath = some path
        ∧ d.files.contentAt path = .ok (Text.Utf8.encode d.session.patchText))
      ∨ d.session.patchPath = none ∧ d.session.patchText = "")
    ∧ ∀ action, (∀ path, action ≠ .load path) →
        (d.perform action).2.session.patchText ≠ d.session.patchText →
        (d.perform action).2.session.saved = false := by
  have hhonest := (honest_opened hopen files).run actions
  rw [hd] at hhonest
  exact ⟨hhonest, fun action haction htext => perform_saved haction htext⟩

/-- A patch is saved under one name, broken and typed over, saved again under that name, and
not saved under another one, which is no file. -/
def savedTwice : List Action :=
  [.setText " x", .saveAs ⟨"p.patch"⟩, .breakLine 1, .setText "y", .save, .saveAs ⟨"."⟩,
    .load ⟨"q.patch"⟩, .recompute]

/-- A text is saved, changed and saved again, and the later one is in the file. -/
theorem savedTwice_is_stored :
    ∃ s d, Session.ofBytes plainBench storedA = .ok s
      ∧ (Desk.mk s (.empty [])).run savedTwice = d ∧ d.session.saved = true
      ∧ d.session.patchText = "y"
      ∧ d.files.contentAt ⟨"p.patch"⟩ = .ok (Text.Utf8.encode "y") := by
  -- The files of the final desk are not evaluated: what they hold follows from the flag.
  have hfinal : ((Session.ofBytes plainBench storedA).toOption.map fun s =>
      let d := (Desk.mk s (.empty [])).run savedTwice
      (d.session.saved, d.session.patchPath, d.session.patchText))
        = some (true, some ⟨"p.patch"⟩, "y") := by
    decide +kernel
  cases hopen : Session.ofBytes plainBench storedA with
  | error fault =>
    rw [hopen] at hfinal
    cases hfinal
  | ok s =>
    rw [hopen] at hfinal
    simp only [Except.toOption, Option.map_some, Option.some.injEq, Prod.mk.injEq] at hfinal
    obtain ⟨hsaved, hpath, htext⟩ := hfinal
    obtain ⟨hstored, -⟩ := saved_patch_is_stored (.ofBytes hopen)
      (rfl : (Desk.mk s (.empty [])).run savedTwice = _)
    rcases hstored hsaved with ⟨path, hpath', hcontent⟩ | ⟨hnone, -⟩
    · rw [hpath] at hpath'
      cases hpath'
      rw [htext] at hcontent
      exact ⟨s, _, rfl, rfl, hsaved, htext, hcontent⟩
    · rw [hpath] at hnone
      cases hnone

end Desk

end Classdesk.Editor
