import Classdesk.Proofs.Highlight.Sweep
import Mathlib.Data.List.ModifyLast

/-!
# Text that is appended leaves the spans in front of it alone

`resolve_append`: let the matches in a longer text be those in its front, and others that
start where the front ends or later. Then the spans that start in the front, the last of
them cut off where the front ends, are the spans of the front on its own.

Both texts are swept by their own events. Those in front of the seam, the offset where the
front ends, are the same for both, in the same order (`filter_mergeSort_eq`); so the two sweeps
agree up to there. Past the seam they need not: the front closes the last span because its
text ends, or with the events of matches that end there, while the longer text goes on until
the next event, which may be far behind the seam, or at the seam, where a label that was just
closed may be opened again.

> `clipTo_sweep`: two sweeps over the same events in front of the seam write the same spans
> there, whatever follows for the longer one and whatever the shorter one still has to close.
-/

namespace Classdesk.Highlight

/-- The spans that start in front of an offset, the last of them cut off there. -/
def clipTo (seam : Nat) (spans : List Span) : List Span :=
  (spans.filter fun s => s.start < seam).modifyLast fun s => { s with stop := min s.stop seam }

/-! ## Two sweeps -/

/-- Past its last offset the sweep writes only spans that start there or later. -/
theorem sweep_start_le {length : Nat} :
    ∀ (events : List Event) {previous : Nat} (active : List String),
      ∀ s ∈ sweep length previous active events, previous ≤ s.start := by
  intro events
  induction events with
  | nil =>
    intro previous active s hs
    unfold sweep at hs
    split at hs
    · rw [List.mem_singleton.mp hs]
    · cases hs
  | cons e events ih =>
    intro previous active s hs
    unfold sweep at hs
    split at hs
    next hcut =>
      rcases List.mem_cons.mp hs with hfirst | hlater
      · rw [hfirst]
      · exact Nat.le_trans (Nat.le_of_lt hcut) (ih _ s hlater)
    next => exact ih _ s hs

/-- In front of the end of the text there is a span left to write. -/
theorem sweep_ne_nil {length : Nat} (events : List Event) {previous : Nat}
    (active : List String) (h : previous < length) :
    sweep length previous active events ≠ [] := by
  induction events generalizing previous active with
  | nil =>
    unfold sweep
    rw [if_pos (by simp [h])]
    exact List.cons_ne_nil _ _
  | cons e events ih =>
    unfold sweep
    split
    next => exact List.cons_ne_nil _ _
    next hcut => exact ih _ (by omega)

/-- A span in front of the seam with no other one there behind it is cut off. -/
theorem clipTo_last {seam : Nat} {s : Span} {spans : List Span} (h : s.start < seam)
    (hspans : ∀ t ∈ spans, seam ≤ t.start) :
    clipTo seam (s :: spans) = [{ s with stop := min s.stop seam }] := by
  have hnone : spans.filter (fun t => decide (t.start < seam)) = [] := by
    rw [List.filter_eq_nil_iff]
    intro t ht
    have hle := hspans t ht
    simpa using hle
  rw [clipTo, List.filter_cons_of_pos (by simpa using h), hnone]
  exact List.modifyLast_concat _ s []

/-- A span in front of the seam with another one there behind it stays as it is. -/
theorem clipTo_cons {seam : Nat} {s : Span} {spans : List Span} (h : s.start < seam)
    (hspans : clipTo seam spans ≠ []) : clipTo seam (s :: spans) = s :: clipTo seam spans := by
  have hsome : spans.filter (fun t => decide (t.start < seam)) ≠ [] := by
    intro hnone
    apply hspans
    rw [clipTo, hnone]
    rfl
  rw [clipTo, List.filter_cons_of_pos (by simpa using h)]
  exact List.modifyLast_append_of_right_ne_nil _ [s] _ hsome

/-- A text that ends at the seam has no span behind it. -/
theorem sweep_at_end {length : Nat} (hlength : 0 < length) (events : List Event)
    (active : List String) (hevents : ∀ e ∈ events, e.offset = length) :
    sweep length length active events = [] := by
  induction events generalizing active with
  | nil =>
    unfold sweep
    rw [if_neg (by simp; omega)]
  | cons e events ih =>
    obtain ⟨he, hrest⟩ := List.forall_mem_cons.mp hevents
    unfold sweep
    rw [if_neg (by omega)]
    exact ih _ hrest

/-- The sweep stands in front of the seam, and the next event is not: the span it writes
goes at least to the seam. -/
theorem clipTo_sweep_past {length seam previous : Nat} (hprevious : previous < seam)
    (hseam : seam ≤ length) (active : List String) (events : List Event)
    (hevents : ∀ e ∈ events, seam ≤ e.offset) :
    clipTo seam (sweep length previous active events)
      = [⟨previous, seam, distinctLabels active⟩] := by
  cases events with
  | nil =>
    unfold sweep
    rw [if_pos (by simp; omega), clipTo_last hprevious (by simp), Nat.min_eq_right hseam]
  | cons e events =>
    have hnext := hevents e (List.mem_cons_self ..)
    have hrest : ∀ s ∈ sweep length e.offset (e.update active) events, seam ≤ s.start := by
      intro s hs
      exact Nat.le_trans hnext (sweep_start_le _ _ s hs)
    unfold sweep
    rw [if_pos (by omega), clipTo_last hprevious hrest, Nat.min_eq_right hnext]

/-- The same for a text that ends at the seam, with the ends of matches there. -/
theorem sweep_to_end {seam previous : Nat} (hprevious : previous < seam) (active : List String)
    (events : List Event) (hevents : ∀ e ∈ events, e.offset = seam) :
    sweep seam previous active events = [⟨previous, seam, distinctLabels active⟩] := by
  cases events with
  | nil =>
    unfold sweep
    rw [if_pos (by simp [hprevious])]
  | cons e events =>
    obtain ⟨he, hrest⟩ := List.forall_mem_cons.mp hevents
    unfold sweep
    rw [if_pos (by omega), he, sweep_at_end (by omega) _ _ hrest]

/-- Two sweeps over the same events in front of the seam write the same spans there. -/
theorem clipTo_sweep {length seam : Nat} (hseam : seam ≤ length) {later closing : List Event}
    (hlater : ∀ e ∈ later, seam ≤ e.offset) (hclosing : ∀ e ∈ closing, e.offset = seam)
    (common : List Event) {previous : Nat} (hprevious : previous < seam) (active : List String)
    (hcommon : ∀ e ∈ common, e.offset < seam) :
    clipTo seam (sweep length previous active (common ++ later))
      = sweep seam previous active (common ++ closing) := by
  induction common generalizing previous active with
  | nil =>
    rw [List.nil_append, List.nil_append, clipTo_sweep_past hprevious hseam active later hlater,
      sweep_to_end hprevious active closing hclosing]
  | cons e common ih =>
    obtain ⟨he, hrest⟩ := List.forall_mem_cons.mp hcommon
    rw [List.cons_append, List.cons_append, sweep, sweep]
    by_cases hcut : previous < e.offset
    · -- The next span starts in front of the seam too, so this one is not the last there.
      have hnext := ih he (e.update active) hrest
      have hsome : clipTo seam (sweep length e.offset (e.update active) (common ++ later))
          ≠ [] := by
        rw [hnext]
        exact sweep_ne_nil _ _ he
      rw [if_pos hcut, if_pos hcut, clipTo_cons hprevious hsome, hnext]
    · rw [if_neg hcut, if_neg hcut]
      exact ih hprevious _ hrest

/-! ## Events in front of the seam -/

/-- The order of events has no ties, so sorting fixes the list. -/
theorem Event.le_antisymm {a b : Event} (hab : a.le b = true) (hba : b.le a = true) : a = b := by
  unfold le at hab hba
  obtain ⟨o, i, l⟩ := a
  obtain ⟨o', i', l'⟩ := b
  simp only [Event.mk.injEq]
  grind [String.le_antisymm]

/-- Of two lists of events in order, what is left in after leaving out the same kind of
events is equal if it was equal up to order before. -/
theorem filter_mergeSort_eq {p : Event → Bool} {xs ys : List Event}
    (h : (xs.filter p).Perm (ys.filter p)) :
    (xs.mergeSort Event.le).filter p = (ys.mergeSort Event.le).filter p := by
  have hperm : ((xs.mergeSort Event.le).filter p).Perm ((ys.mergeSort Event.le).filter p) :=
    ((List.mergeSort_perm xs Event.le).filter p).trans
      (h.trans ((List.mergeSort_perm ys Event.le).filter p).symm)
  have hsorted : ∀ events : List Event,
      ((events.mergeSort Event.le).filter p).Pairwise fun a b => a.le b = true := fun events =>
    (List.pairwise_mergeSort Event.le_trans Event.le_total events).filter p
  refine hperm.eq_of_pairwise ?_ (hsorted xs) (hsorted ys)
  intro a b _ _ hab hba
  exact Event.le_antisymm hab hba

/-- Events that go by offset are those in front of the seam and then the others. -/
theorem split_at_seam {events : List Event}
    (hsorted : events.Pairwise fun a b => a.offset ≤ b.offset) (seam : Nat) :
    ∃ rest, events = events.filter (fun e => decide (e.offset < seam)) ++ rest
      ∧ ∀ e ∈ rest, seam ≤ e.offset := by
  induction events with
  | nil => exact ⟨[], rfl, fun e he => absurd he List.not_mem_nil⟩
  | cons e events ih =>
    obtain ⟨hahead, hsorted⟩ := List.pairwise_cons.mp hsorted
    by_cases he : e.offset < seam
    · obtain ⟨rest, hsplit, hrest⟩ := ih hsorted
      refine ⟨rest, ?_, hrest⟩
      rw [List.filter_cons_of_pos (by simpa using he), List.cons_append, ← hsplit]
    · -- From the first event at the seam on, no event is in front of it.
      have hall : ∀ d ∈ e :: events, seam ≤ d.offset := by
        intro d hd
        rcases List.mem_cons.mp hd with hd | hd
        · rw [hd]
          omega
        · have hle := hahead d hd
          omega
      refine ⟨e :: events, ?_, hall⟩
      rw [List.filter_eq_nil_iff.mpr]
      · rfl
      · intro d hd
        have hle := hall d hd
        simpa using hle

/-! ## Matches on both sides of the seam -/

private theorem matchEvents_append (xs ys : List Match) :
    matchEvents (xs ++ ys) = matchEvents xs ++ matchEvents ys := List.flatMap_append

/-- Matches behind the seam have no event in front of it. -/
theorem filter_matchEvents_later {later : List Match} {seam : Nat}
    (h : ∀ m ∈ later, seam ≤ m.start ∧ m.start < m.stop) :
    (matchEvents later).filter (fun e => decide (e.offset < seam)) = [] := by
  rw [List.filter_eq_nil_iff]
  intro e he
  obtain ⟨m, hm, hends⟩ := mem_matchEvents.mp he
  obtain ⟨hstart, hlt⟩ := h m hm
  rcases hends with rfl | rfl
  · simpa using hstart
  · have hle : seam ≤ m.stop := by omega
    simpa using hle

/-- The sweep over all matches, cut off at the seam, is the sweep over those in front of it. -/
theorem clipTo_sweep_matches {ms later all : List Match} {length seam : Nat} (hpos : 0 < seam)
    (hseam : seam ≤ length) (hall : all.Perm (ms ++ later))
    (hms : ∀ m ∈ ms, m.start < m.stop ∧ m.stop ≤ seam)
    (hlater : ∀ m ∈ later, seam ≤ m.start ∧ m.start < m.stop) :
    clipTo seam (sweep length 0 [] ((matchEvents all).mergeSort Event.le))
      = sweep seam 0 [] ((matchEvents ms).mergeSort Event.le) := by
  obtain ⟨behind, hsplit, hbehind⟩ := split_at_seam (matchEvents_sorted all) seam
  obtain ⟨closing, hsplit', hclosing⟩ := split_at_seam (matchEvents_sorted ms) seam
  have hcommon : ((matchEvents all).mergeSort Event.le).filter (fun e => decide (e.offset < seam))
      = ((matchEvents ms).mergeSort Event.le).filter (fun e => decide (e.offset < seam)) := by
    apply filter_mergeSort_eq
    have hperm : (matchEvents all).Perm (matchEvents ms ++ matchEvents later) := by
      rw [← matchEvents_append]
      exact hall.flatMap_right _
    have hfilter := hperm.filter fun e => decide (e.offset < seam)
    rw [List.filter_append, filter_matchEvents_later hlater, List.append_nil] at hfilter
    exact hfilter
  -- What the front still has at the seam are the ends of matches there.
  have hends : ∀ e ∈ closing, e.offset = seam := by
    intro e he
    have hmem : e ∈ (matchEvents ms).mergeSort Event.le := by
      rw [hsplit']
      exact List.mem_append_right _ he
    obtain ⟨m, hm, heq⟩ := (exists_event_iff (List.mergeSort_perm _ _)).mp ⟨e, hmem, rfl⟩
    have hle := hclosing e he
    have hmatch := hms m hm
    omega
  rw [hsplit, hcommon, clipTo_sweep hseam hbehind hends _ hpos, ← hsplit']
  intro e he
  simpa using (List.mem_filter.mp he).2

/-- Every pattern matches in the longer text what it matches in the front, and then only
what starts where the front ends or later. -/
def MatchesKept (patterns : PatternSet) (front back : String) : Prop :=
  ∀ p ∈ patterns, ∃ later, p.rangesIn (front ++ back) = p.rangesIn front ++ later
    ∧ ∀ r ∈ later, front.utf8ByteSize ≤ r.1

/-- The matches that the longer text adds. -/
def addedMatches (patterns : PatternSet) (front back : String) : List Match :=
  patterns.flatMap fun p =>
    ((p.rangesIn (front ++ back)).drop (p.rangesIn front).length).map fun r =>
      ⟨p.label, r.1, r.2⟩

/-- Up to order, the longer text has the old matches and the added ones. -/
private theorem MatchesKept.found_perm {patterns : PatternSet} {front back : String}
    (h : MatchesKept patterns front back) :
    (found patterns (front ++ back)).Perm
      (found patterns front ++ addedMatches patterns front back) := by
  refine List.Perm.trans (List.Perm.of_eq ?_) (List.flatMap_append_perm patterns _ _).symm
  unfold found
  apply List.flatMap_congr
  intro p hp
  obtain ⟨later, hranges, -⟩ := h p hp
  show (p.rangesIn (front ++ back)).map _ = (p.rangesIn front).map _
    ++ ((p.rangesIn (front ++ back)).drop (p.rangesIn front).length).map _
  rw [hranges, List.drop_left, List.map_append]

/-- An added match starts at the seam or behind it, and is not empty. -/
private theorem MatchesKept.addedMatches_spec {patterns : PatternSet} {front back : String}
    (h : MatchesKept patterns front back) :
    ∀ m ∈ addedMatches patterns front back, front.utf8ByteSize ≤ m.start ∧ m.start < m.stop := by
  intro m hm
  have hfound : m ∈ found patterns (front ++ back) :=
    h.found_perm.mem_iff.mpr (List.mem_append_right _ hm)
  obtain ⟨p, hp, hmem⟩ := List.mem_flatMap.mp hm
  obtain ⟨r, hr, rfl⟩ := List.mem_map.mp hmem
  obtain ⟨later, hranges, hbehind⟩ := h p hp
  rw [hranges, List.drop_left] at hr
  exact ⟨hbehind r hr, (found_spec hfound).lt⟩

/-- **Text that is appended leaves the spans in front of it alone.** If the matches in the
front are kept and no other one starts in it, then the spans that start in the front, the
last of them cut off where it ends, are the spans of the front. The last part does not ask
how matches are found: it holds of all that lie inside the texts. -/
theorem resolve_append (patterns : PatternSet) (front back : String) (hfront : front ≠ "") :
    (MatchesKept patterns front back →
        clipTo front.utf8ByteSize (resolve patterns (front ++ back)) = resolve patterns front)
      ∧ ∀ ms later all : List Match, all.Perm (ms ++ later) → (∀ m ∈ ms, m.Inside front) →
        (∀ m ∈ later, m.Inside (front ++ back) ∧ front.utf8ByteSize ≤ m.start) →
        clipTo front.utf8ByteSize
            (sweep (front ++ back).utf8ByteSize 0 [] ((matchEvents all).mergeSort Event.le))
          = sweep front.utf8ByteSize 0 [] ((matchEvents ms).mergeSort Event.le) := by
  have hpos : 0 < front.utf8ByteSize := by
    rw [Nat.pos_iff_ne_zero]
    intro hzero
    exact hfront (String.utf8ByteSize_eq_zero_iff.mp hzero)
  have hseam : front.utf8ByteSize ≤ (front ++ back).utf8ByteSize := by
    rw [String.utf8ByteSize_append]
    exact Nat.le_add_right _ _
  refine ⟨?_, ?_⟩
  · intro hkept
    rw [resolve, resolve, boundaryEvents_eq, boundaryEvents_eq]
    refine clipTo_sweep_matches hpos hseam hkept.found_perm ?_ hkept.addedMatches_spec
    intro m hm
    exact ⟨(found_spec hm).lt, (found_spec hm).stop_le⟩
  · intro ms later all hall hms hlater
    refine clipTo_sweep_matches hpos hseam hall ?_ ?_
    · intro m hm
      exact ⟨(hms m hm).lt, (hms m hm).stop_le⟩
    · intro m hm
      exact ⟨(hlater m hm).2, (hlater m hm).1.lt⟩

/-- Two patterns with one label: it is closed at the seam and opened there again. -/
def seamPatterns : PatternSet :=
  [⟨(Pattern.Expr.seq (.chars (.single 'b')) (.chars (.single 'é'))).toRegex "bé", "k"⟩,
    ⟨(Pattern.Expr.chars (.single 'a')).toRegex "a", "k"⟩]

/-- One match ends where the other starts, and the spans in front of the seam stay as they are. -/
theorem seamPatterns_append :
    found seamPatterns ("xbé" ++ "ab") = [⟨"k", 1, 4⟩, ⟨"k", 4, 5⟩]
      ∧ clipTo 4 (resolve seamPatterns ("xbé" ++ "ab")) = resolve seamPatterns "xbé"
      ∧ clipTo 4 (sweep 6 0 [] ((matchEvents [⟨"w", 5, 6⟩, ⟨"w", 1, 2⟩]).mergeSort Event.le))
          = sweep 4 0 [] ((matchEvents [⟨"w", 1, 2⟩]).mergeSort Event.le) := by
  obtain ⟨hresolve, hany⟩ := resolve_append seamPatterns "xbé" "ab" (by decide)
  refine ⟨by rfl, hresolve ?_, ?_⟩
  · intro p hp
    simp only [seamPatterns, List.mem_cons, List.not_mem_nil, or_false] at hp
    rcases hp with rfl | rfl
    · exact ⟨[], by rfl, by simp⟩
    · exact ⟨[(4, 5)], by rfl, by decide⟩
  · refine hany [⟨"w", 1, 2⟩] [⟨"w", 5, 6⟩] _ (List.Perm.swap _ _ _) ?_ ?_
    · intro m hm
      rw [List.mem_singleton.mp hm]
      exact ⟨by decide, by decide, ⟨1, by decide, by decide⟩, ⟨2, by decide, by decide⟩⟩
    · intro m hm
      rw [List.mem_singleton.mp hm]
      exact ⟨⟨by decide, by decide, ⟨4, by decide, by decide⟩, ⟨5, by decide, by decide⟩⟩,
        by decide⟩

end Classdesk.Highlight
