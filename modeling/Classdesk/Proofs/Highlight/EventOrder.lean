import Classdesk.Proofs.Highlight.Sweep

/-!
# The order of patterns and of events does not show

The sweep is stateful: an event for a label that is not active is passed over, so the order
in which it meets the events could matter. At one offset it does not. Whatever the order,
each end finds its label active, because its match started at a smaller offset; so every
order gives spans that are cut and labelled as the matches say, and

> `Resolved.unique`: matches allow only one list of spans.

From this, `resolve_ignores_order`: the spans of a text are the same for every order of the
patterns, and for every order of the events that goes by offset, whether ends come before
starts, after them, or among them.
-/

namespace Classdesk.Highlight

/-- Increasing lists of the same labels are equal. -/
theorem eq_of_increasing {xs ys : List String} (hxs : xs.Pairwise (· < ·))
    (hys : ys.Pairwise (· < ·)) (hmem : ∀ label, label ∈ xs ↔ label ∈ ys) : xs = ys := by
  have hperm : xs.Perm ys :=
    (List.perm_ext_iff_of_nodup (hxs.imp fun h => h.ne) (hys.imp fun h => h.ne)).mpr hmem
  refine hperm.eq_of_pairwise ?_ hxs hys
  intro a b _ _ hab hba
  exact absurd hab (not_lt_of_gt hba)

/-- Lists that look the same through a function are equal if the function tells their
elements apart. -/
theorem eq_of_map_eq {α β : Type} {f : α → β} {xs ys : List α} (hmap : xs.map f = ys.map f)
    (hinj : ∀ x ∈ xs, ∀ y ∈ ys, f x = f y → x = y) : xs = ys := by
  induction xs generalizing ys with
  | nil => exact (List.map_eq_nil_iff.mp hmap.symm).symm
  | cons x xs ih =>
    cases ys with
    | nil => cases hmap
    | cons y ys =>
      rw [List.map_cons, List.map_cons, List.cons.injEq] at hmap
      have hhead := hinj x (List.mem_cons_self ..) y (List.mem_cons_self ..) hmap.1
      have htail := ih hmap.2 fun a ha b hb =>
        hinj a (List.mem_cons_of_mem _ ha) b (List.mem_cons_of_mem _ hb)
      rw [hhead, htail]

/-- **Matches allow only one list of spans.** -/
theorem Resolved.unique {ms : List Match} {text : String} {xs ys : List Span}
    (hxs : Resolved ms text xs) (hys : Resolved ms text ys) : xs = ys := by
  refine eq_of_map_eq (hxs.cut.trans hys.cut.symm) ?_
  intro s hs t ht hends
  obtain ⟨hstart, hstop⟩ := Prod.mk.inj hends
  obtain ⟨hincreasing, hcovers⟩ := hxs.labelled s hs
  obtain ⟨hincreasing', hcovers'⟩ := hys.labelled t ht
  have hlabels : s.labels = t.labels := by
    apply eq_of_increasing hincreasing hincreasing'
    intro label
    rw [hcovers, hcovers', hstart, hstop]
  cases s
  cases t
  simp only [Span.mk.injEq]
  exact ⟨hstart, hstop, hlabels⟩

/-- Any two orders of the events of some matches that go by offset give the same spans. -/
theorem sweep_perm {ms : List Match} {text : String} (hms : ∀ m ∈ ms, m.Inside text)
    {events others : List Event} (hevents : events.Perm (matchEvents ms))
    (hothers : others.Perm (matchEvents ms))
    (hsorted : events.Pairwise fun a b => a.offset ≤ b.offset)
    (hothersSorted : others.Pairwise fun a b => a.offset ≤ b.offset) :
    sweep text.utf8ByteSize 0 [] events = sweep text.utf8ByteSize 0 [] others := by
  rcases Nat.eq_zero_or_pos text.utf8ByteSize with hzero | hpos
  · -- An empty text has no matches, so there is nothing to put in order.
    have hnone : ms = [] := by
      refine List.eq_nil_iff_forall_not_mem.mpr fun m hm => ?_
      have hlt := (hms m hm).lt
      have hle := (hms m hm).stop_le
      omega
    rw [hnone] at hevents hothers
    rw [hevents.eq_nil, hothers.eq_nil]
  · exact (sweep_resolved_of_perm hpos hms hevents hsorted).unique
      (sweep_resolved_of_perm hpos hms hothers hothersSorted)

/-- The events are those of the matches that are found, in some order. -/
theorem boundaryEvents_perm (patterns : PatternSet) (text : String) :
    (boundaryEvents patterns text).Perm (matchEvents (found patterns text)) := by
  rw [boundaryEvents_eq]
  exact List.mergeSort_perm _ _

private theorem boundaryEvents_sorted (patterns : PatternSet) (text : String) :
    (boundaryEvents patterns text).Pairwise fun a b => a.offset ≤ b.offset := by
  rw [boundaryEvents_eq]
  exact matchEvents_sorted _

/-- Patterns in another order have the same matches, in another order. -/
theorem matchEvents_found_perm {patterns others : PatternSet} (h : others.Perm patterns)
    (text : String) :
    (matchEvents (found others text)).Perm (matchEvents (found patterns text)) :=
  (h.flatMap_right _).flatMap_right _

/-- **The order of patterns and of events does not show.** A text has the same spans for
every order of its patterns, and for every order of the events of their matches that goes by
offset. The last part does not ask how matches are found: it holds of all that lie inside
the text. -/
theorem resolve_ignores_order (patterns : PatternSet) (text : String) :
    (∀ others : PatternSet, others.Perm patterns →
        resolve others text = resolve patterns text)
      ∧ (∀ events : List Event, events.Perm (boundaryEvents patterns text) →
          (events.Pairwise fun a b => a.offset ≤ b.offset) →
          sweep text.utf8ByteSize 0 [] events = resolve patterns text)
      ∧ (∀ ms : List Match, (∀ m ∈ ms, m.Inside text) →
          ∀ events others : List Event, events.Perm (matchEvents ms) →
            others.Perm (matchEvents ms) →
            (events.Pairwise fun a b => a.offset ≤ b.offset) →
            (others.Pairwise fun a b => a.offset ≤ b.offset) →
            sweep text.utf8ByteSize 0 [] events = sweep text.utf8ByteSize 0 [] others) := by
  have hinside : ∀ m ∈ found patterns text, m.Inside text := fun m hm => found_spec hm
  have hperm := boundaryEvents_perm patterns text
  have hsorted := boundaryEvents_sorted patterns text
  refine ⟨?_, ?_, ?_⟩
  · intro others hothers
    have hsame := (boundaryEvents_perm others text).trans (matchEvents_found_perm hothers text)
    exact sweep_perm hinside hsame hperm (boundaryEvents_sorted others text) hsorted
  · intro events hevents heventsSorted
    exact sweep_perm hinside (hevents.trans hperm) hperm heventsSorted hsorted
  · intro ms hms events others hevents hothers heventsSorted hothersSorted
    exact sweep_perm hms hevents hothers heventsSorted hothersSorted

/-- A letter and a word with one label: the label is closed and opened at one offset while
it stays open. -/
def letterPatterns : PatternSet :=
  [⟨(Pattern.Expr.chars (.single 'a')).toRegex "a", "k"⟩,
    ⟨(Pattern.Expr.seq (.chars (.single 'a')) (.chars (.single 'a'))).toRegex "aa", "k"⟩]

/-- Patterns the other way round give the same spans, and so do the events of one offset. -/
theorem letterPatterns_ignore_order :
    found letterPatterns "aa" = [⟨"k", 0, 1⟩, ⟨"k", 1, 2⟩, ⟨"k", 0, 2⟩]
      ∧ resolve letterPatterns.reverse "aa" = resolve letterPatterns "aa"
      ∧ sweep 2 0 [] [⟨0, true, "k"⟩, ⟨0, true, "k"⟩, ⟨1, true, "k"⟩, ⟨1, false, "k"⟩,
          ⟨2, false, "k"⟩, ⟨2, false, "k"⟩] = resolve letterPatterns "aa"
      ∧ sweep 2 0 [] [⟨0, true, "x"⟩, ⟨1, true, "y"⟩, ⟨1, false, "x"⟩, ⟨2, false, "y"⟩]
          = sweep 2 0 [] [⟨0, true, "x"⟩, ⟨1, false, "x"⟩, ⟨1, true, "y"⟩, ⟨2, false, "y"⟩] := by
  have hfound : found letterPatterns "aa" = [⟨"k", 0, 1⟩, ⟨"k", 1, 2⟩, ⟨"k", 0, 2⟩] := by rfl
  obtain ⟨hpatterns, hevents, hany⟩ := resolve_ignores_order letterPatterns "aa"
  refine ⟨hfound, hpatterns _ (List.reverse_perm _), ?_, ?_⟩
  · refine hevents _ ?_ (by decide)
    refine List.Perm.trans ?_ (boundaryEvents_perm letterPatterns "aa").symm
    rw [hfound]
    decide
  · refine hany [⟨"x", 0, 1⟩, ⟨"y", 1, 2⟩] ?_ _ _ (by decide) (by decide) (by decide) (by decide)
    intro m hm
    simp only [List.mem_cons, List.not_mem_nil, or_false] at hm
    rcases hm with rfl | rfl
    · exact ⟨by decide, by decide, ⟨0, by decide, by decide⟩, ⟨1, by decide, by decide⟩⟩
    · exact ⟨by decide, by decide, ⟨1, by decide, by decide⟩, ⟨2, by decide, by decide⟩⟩

end Classdesk.Highlight
