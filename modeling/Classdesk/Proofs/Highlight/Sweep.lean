import Classdesk.Proofs.Highlight.Ranges
import Mathlib.Data.Finset.Sort

/-!
# Spans by what covers them

`resolve_meets_spec`: the spans of a text are what one gets by cutting it at both ends of
every match, each with the labels of exactly those matches that cover it. The sweep does
not look at matches: it walks over sorted events and keeps a bag of active labels. Two
things have to be seen. Every end takes a label out of the bag that was in there, because
its match starts earlier (`Swept.closes_lt_opens`); so the bag counts the open matches. And
when a span is written, the events behind the sweep are those up to the start of the span:

> `Swept.mem_active_iff`: a label is active between two cuts if and only if a match with
> this label covers what lies between them.
-/

namespace Classdesk

theorem nodup_eraseDups {α : Type} [BEq α] [LawfulBEq α] (l : List α) : l.eraseDups.Nodup := by
  induction hn : l.length using Nat.strongRecOn generalizing l with
  | _ n ih =>
    cases l with
    | nil => simp
    | cons a l =>
      rw [List.eraseDups_cons, List.nodup_cons]
      have hshorter : (l.filter fun b => !b == a).length < n := by
        have hle := List.length_filter_le (fun b => !b == a) l
        simp only [List.length_cons] at hn
        omega
      refine ⟨fun ha => ?_, ih _ hshorter _ rfl⟩
      have hmem := (List.mem_filter.mp (List.mem_eraseDups.mp ha)).2
      simp at hmem

namespace Highlight

/-! ## Events -/

/-- The events of some matches. -/
def matchEvents (ms : List Match) : List Event :=
  ms.flatMap fun m => [⟨m.start, true, m.label⟩, ⟨m.stop, false, m.label⟩]

/-- Leaving out what covers no text leaves the events of the matches that do. -/
theorem events_eq_matchEvents (label : String) {ranges : List (Nat × Nat)}
    (hle : ∀ r ∈ ranges, r.1 ≤ r.2) :
    (ranges.flatMap fun (start, stop) =>
        if start = stop then [] else [⟨start, true, label⟩, ⟨stop, false, label⟩])
      = matchEvents ((ranges.filter fun r => r.1 < r.2).map fun r => ⟨label, r.1, r.2⟩) := by
  induction ranges with
  | nil => rfl
  | cons r ranges ih =>
    obtain ⟨hr, hrest⟩ := List.forall_mem_cons.mp hle
    rw [List.flatMap_cons, ih hrest]
    by_cases hempty : r.1 = r.2
    · rw [List.filter_cons_of_neg (by simp; omega)]
      show (if r.1 = r.2 then _ else _) ++ _ = _
      rw [if_pos hempty, List.nil_append]
    · rw [List.filter_cons_of_pos (by simp; omega)]
      show (if r.1 = r.2 then _ else _) ++ _ = _
      rw [if_neg hempty]
      rfl

/-- The events of a text are those of its non-empty matches, in order. -/
theorem boundaryEvents_eq (patterns : PatternSet) (text : String) :
    boundaryEvents patterns text
      = (matchEvents (found patterns text)).mergeSort Event.le := by
  have hevents : ∀ p : Pattern,
      ((p.regex.findAll text).flatMap fun (start, stop) =>
        if start = stop then [] else [⟨start, true, p.label⟩, ⟨stop, false, p.label⟩])
        = matchEvents ((p.rangesIn text).map fun r => ⟨p.label, r.1, r.2⟩) := fun p =>
    events_eq_matchEvents p.label (p.regex.inOrder text).le
  unfold boundaryEvents
  simp only [hevents]
  rw [matchEvents, found, List.flatMap_assoc]
  rfl

namespace Event

theorem le_trans (a b c : Event) (hab : a.le b = true) (hbc : b.le c = true) :
    a.le c = true := by
  unfold le at *
  grind [String.le_trans]

theorem le_total (a b : Event) : (a.le b || b.le a) = true := by
  unfold le
  grind [String.le_total]

private theorem offset_le {a b : Event} (h : a.le b = true) : a.offset ≤ b.offset := by
  unfold le at h
  split at h
  next => exact Nat.le_of_lt (of_decide_eq_true h)
  next heq => omega

end Event

/-- Sorted events come by their offsets. -/
theorem matchEvents_sorted (ms : List Match) :
    ((matchEvents ms).mergeSort Event.le).Pairwise fun a b => a.offset ≤ b.offset :=
  (List.pairwise_mergeSort Event.le_trans Event.le_total _).imp Event.offset_le

/-- Every event is one of the two ends of a match. -/
theorem mem_matchEvents {ms : List Match} {e : Event} :
    e ∈ matchEvents ms ↔ ∃ m ∈ ms, e = ⟨m.start, true, m.label⟩ ∨ e = ⟨m.stop, false, m.label⟩ := by
  simp [matchEvents]

/-- Events are counted by the matches they belong to. -/
theorem countP_matchEvents (p : Event → Bool) (ms : List Match) :
    (matchEvents ms).countP p
      = ms.countP (fun m => p ⟨m.start, true, m.label⟩)
        + ms.countP (fun m => p ⟨m.stop, false, m.label⟩) := by
  induction ms with
  | nil => rfl
  | cons m ms ih =>
    have hcons : matchEvents (m :: ms)
        = ⟨m.start, true, m.label⟩ :: ⟨m.stop, false, m.label⟩ :: matchEvents ms := rfl
    rw [hcons, List.countP_cons, List.countP_cons, List.countP_cons, List.countP_cons, ih]
    omega

/-! ## Active labels -/

/-- How many of some events open a match with a label. -/
def opens (label : String) (events : List Event) : Nat :=
  events.countP fun e => e.isStart && e.label == label

/-- How many of some events close a match with a label. -/
def closes (label : String) (events : List Event) : Nat :=
  events.countP fun e => !e.isStart && e.label == label

/-- The sweep has come through `before`, and `rest` is ahead of it. -/
structure Swept (ms : List Match) (before rest : List Event) (active : List String) : Prop where
  events : (before ++ rest).Perm (matchEvents ms)
  sorted : (before ++ rest).Pairwise fun a b => a.offset ≤ b.offset
  /-- A label is active once for each match that is open. -/
  balance : ∀ label, active.count label + closes label before = opens label before

section

variable {ms : List Match} {before rest : List Event} {active : List String} {e : Event}

/-- Where the events behind the sweep are those with a property, counting them counts
ends of matches. -/
theorem Swept.countP_before (h : Swept ms before rest active) {p : Event → Bool}
    (hrest : ∀ e ∈ rest, p e = false) :
    before.countP p = ms.countP (fun m => p ⟨m.start, true, m.label⟩)
      + ms.countP (fun m => p ⟨m.stop, false, m.label⟩) := by
  have hnone : rest.countP p = 0 := by
    rw [List.countP_eq_zero]
    intro e he
    simp [hrest e he]
  rw [← countP_matchEvents, ← h.events.countP_eq, List.countP_append, hnone, Nat.add_zero]

/-- Before a match ends, more matches with its label have started than ended. -/
theorem Swept.closes_lt_opens (h : Swept ms before (e :: rest) active)
    (hms : ∀ m ∈ ms, m.start < m.stop) (hend : e.isStart = false) :
    closes e.label before < opens e.label before := by
  have hsorted := List.pairwise_append.mp h.sorted
  have hahead : ∀ d ∈ e :: rest, e.offset ≤ d.offset := by
    intro d hd
    rcases List.mem_cons.mp hd with rfl | hd
    · exact Nat.le_refl _
    · exact (List.pairwise_cons.mp hsorted.2.1).1 d hd
  -- Every match that started before this offset has its start behind the sweep.
  have hopens : ms.countP (fun m => m.label == e.label && decide (m.start < e.offset))
      ≤ opens e.label before := by
    have hcount := h.countP_before
      (p := fun d => d.isStart && d.label == e.label && decide (d.offset < e.offset))
      (fun d hd => by
        have hle := hahead d hd
        simp only [Bool.and_eq_false_iff, decide_eq_false_iff_not]
        exact .inr (by omega))
    simp only [Bool.true_and, Bool.false_and, List.countP_false, Function.const_apply,
      Nat.add_zero] at hcount
    rw [← hcount]
    exact List.countP_mono_left fun d _ hd => (Bool.and_eq_true_iff.mp hd).1
  -- This end and those behind the sweep belong to matches that stop here or earlier.
  have hcloses : closes e.label before + 1
      ≤ ms.countP (fun m => m.label == e.label && decide (m.stop ≤ e.offset)) := by
    have hcount := countP_matchEvents
      (fun d => !d.isStart && d.label == e.label && decide (d.offset ≤ e.offset)) ms
    simp only [Bool.not_true, Bool.false_and, List.countP_false, Function.const_apply, Nat.zero_add,
      Bool.not_false, Bool.true_and] at hcount
    rw [← hcount, ← h.events.countP_eq, List.countP_append, List.countP_cons]
    have hbefore : closes e.label before
        ≤ before.countP fun d => !d.isStart && d.label == e.label && decide (d.offset ≤ e.offset) :=
      List.countP_mono_left fun d hd hclose => by
        have hle := hsorted.2.2 d hd e (List.mem_cons_self ..)
        simp [hclose, hle]
    simp only [hend, beq_self_eq_true, Nat.le_refl, decide_true, Bool.not_false, Bool.and_self,
      if_true]
    omega
  have hstarted : ms.countP (fun m => m.label == e.label && decide (m.stop ≤ e.offset))
      ≤ ms.countP (fun m => m.label == e.label && decide (m.start < e.offset)) := by
    refine List.countP_mono_left fun m hm hstop => ?_
    have hlt := hms m hm
    simp only [Bool.and_eq_true, decide_eq_true_eq] at hstop ⊢
    exact ⟨hstop.1, by omega⟩
  omega

/-- The sweep moves on by one event. -/
theorem Swept.step (h : Swept ms before (e :: rest) active)
    (hms : ∀ m ∈ ms, m.start < m.stop) : Swept ms (before ++ [e]) rest (e.update active) := by
  have hsplit : before ++ [e] ++ rest = before ++ e :: rest := by simp
  refine ⟨hsplit ▸ h.events, hsplit ▸ h.sorted, fun label => ?_⟩
  have hbalance := h.balance label
  simp only [opens, closes, List.countP_append, List.countP_singleton] at hbalance ⊢
  cases hstart : e.isStart with
  | true =>
    simp only [Event.update, hstart, if_true, List.count_cons, Bool.not_true, Bool.false_and,
      Bool.true_and]
    simp only [Bool.false_eq_true, if_false]
    omega
  | false =>
    have hopen := h.closes_lt_opens hms hstart
    have hown := h.balance e.label
    simp only [Event.update, hstart, Bool.false_eq_true, if_false, List.count_erase,
      Bool.not_false, Bool.false_and, Bool.true_and]
    by_cases hlabel : e.label = label
    · subst hlabel
      simp only [opens, closes] at hopen hown
      simp only [beq_self_eq_true, if_true]
      omega
    · have hne : (e.label == label) = false := by simpa using hlabel
      simp only [hne, Bool.false_eq_true, if_false]
      omega

/-- If every element with `q` has `p`, then `p` counts more exactly when some element has
`p` and not `q`. -/
theorem countP_lt_countP_iff {α : Type} {p q : α → Bool} {l : List α}
    (h : ∀ a ∈ l, q a = true → p a = true) :
    l.countP q < l.countP p ↔ ∃ a ∈ l, p a = true ∧ q a = false := by
  induction l with
  | nil => simp
  | cons a l ih =>
    have hrest := ih fun b hb => h b (List.mem_cons_of_mem _ hb)
    have hle : l.countP q ≤ l.countP p :=
      List.countP_mono_left fun b hb => h b (List.mem_cons_of_mem _ hb)
    have ha := h a (List.mem_cons_self ..)
    simp only [List.countP_cons, List.exists_mem_cons_iff, ← hrest]
    cases hp : p a with
    | true =>
      cases hq : q a with
      | true => simp
      | false => simp; omega
    | false =>
      cases hq : q a with
      | true => simp [hq, hp] at ha
      | false => simp

/-- **A label is active between two cuts** exactly when one of its matches covers what is
between them. -/
theorem Swept.mem_active_iff (h : Swept ms before rest active)
    (hms : ∀ m ∈ ms, m.start < m.stop) {x y : Nat} (hxy : x < y)
    (hbefore : ∀ e ∈ before, e.offset ≤ x) (hrest : ∀ e ∈ rest, y ≤ e.offset) (label : String) :
    label ∈ active ↔ ∃ m ∈ ms, m.label = label ∧ m.start ≤ x ∧ y ≤ m.stop := by
  -- The events behind the sweep are those up to `x`.
  have hahead : ∀ e ∈ rest, ¬ e.offset ≤ x := fun e he => by
    have hle := hrest e he
    omega
  have hopens : opens label before
      = ms.countP (fun m => m.label == label && decide (m.start ≤ x)) := by
    have hcount := h.countP_before
      (p := fun e => e.isStart && e.label == label && decide (e.offset ≤ x))
      (fun e he => by simp [hahead e he])
    simp only [Bool.true_and, Bool.false_and, List.countP_false, Function.const_apply,
      Nat.add_zero] at hcount
    rw [← hcount]
    exact List.countP_congr fun e he => by simp [hbefore e he]
  have hcloses : closes label before
      = ms.countP (fun m => m.label == label && decide (m.stop ≤ x)) := by
    have hcount := h.countP_before
      (p := fun e => !e.isStart && e.label == label && decide (e.offset ≤ x))
      (fun e he => by simp [hahead e he])
    simp only [Bool.not_true, Bool.false_and, List.countP_false, Function.const_apply, Nat.zero_add,
      Bool.not_false, Bool.true_and] at hcount
    rw [← hcount]
    exact List.countP_congr fun e he => by simp [hbefore e he]
  have hbalance := h.balance label
  have hopen : label ∈ active ↔ closes label before < opens label before := by
    rw [← List.count_pos_iff]
    omega
  rw [hopen, hopens, hcloses, countP_lt_countP_iff]
  · refine exists_congr fun m => and_congr_right fun hm => ?_
    -- A match that is open at `x` ends at an event ahead of the sweep.
    have hstop : x < m.stop ↔ y ≤ m.stop := by
      refine ⟨fun hlt => ?_, fun hle => by omega⟩
      have hmem : (⟨m.stop, false, m.label⟩ : Event) ∈ before ++ rest :=
        h.events.mem_iff.mpr (mem_matchEvents.mpr ⟨m, hm, .inr rfl⟩)
      rcases List.mem_append.mp hmem with hmem | hmem
      · have hle : m.stop ≤ x := hbefore _ hmem
        omega
      · exact hrest _ hmem
    simp only [Bool.and_eq_true, beq_iff_eq, decide_eq_true_eq, Bool.and_eq_false_iff,
      decide_eq_false_iff_not, beq_eq_false_iff_ne, ← hstop]
    constructor
    · rintro ⟨⟨hlabel, hstart⟩, hother | hlater⟩
      · exact absurd hlabel hother
      · exact ⟨hlabel, hstart, by omega⟩
    · rintro ⟨hlabel, hstart, hlater⟩
      exact ⟨⟨hlabel, hstart⟩, .inr (by omega)⟩
  · intro m hm hstop
    have hlt := hms m hm
    simp only [Bool.and_eq_true, decide_eq_true_eq] at hstop ⊢
    exact ⟨hstop.1, by omega⟩

end

/-! ## Spans -/

/-- Spans that follow each other from one offset to another, none of them empty. -/
def Tiles : (a b : Nat) → List Span → Prop
  | a, b, [] => a = b
  | a, b, s :: spans => s.start = a ∧ a < s.stop ∧ Tiles s.stop b spans

/-- Tiles go to the right. -/
theorem Tiles.le {a b : Nat} {spans : List Span} (h : Tiles a b spans) : a ≤ b := by
  induction spans generalizing a with
  | nil => exact Nat.le_of_eq h
  | cons s spans ih =>
    obtain ⟨-, hlt, hrest⟩ := h
    have hle := ih hrest
    omega

private theorem Tiles.lt_of_mem {a b : Nat} {spans : List Span} (h : Tiles a b spans) {s : Span}
    (hs : s ∈ spans) : s.start < s.stop := by
  induction spans generalizing a with
  | nil => cases hs
  | cons t spans ih =>
    obtain ⟨hstart, hlt, hrest⟩ := h
    rcases List.mem_cons.mp hs with rfl | hs
    · omega
    · exact ih hrest hs

/-- The offsets where spans stop increase from where they start. -/
theorem Tiles.increasing {a b : Nat} {spans : List Span} (h : Tiles a b spans) :
    (a :: spans.map Span.stop).Pairwise (· < ·) := by
  induction spans generalizing a with
  | nil => exact List.pairwise_singleton _ _
  | cons s spans ih =>
    obtain ⟨-, hlt, hrest⟩ := h
    have hstops := ih hrest
    refine List.pairwise_cons.mpr ⟨fun x hx => ?_, hstops⟩
    rcases List.mem_cons.mp hx with rfl | hx
    · exact hlt
    · exact Nat.lt_trans hlt ((List.pairwise_cons.mp hstops).1 x hx)

/-- Spans that follow each other are the pairs of consecutive cuts. -/
theorem Tiles.map_eq_zip {a b : Nat} {spans : List Span} (h : Tiles a b spans) :
    spans.map (fun s => (s.start, s.stop))
      = (a :: spans.map Span.stop).zip (spans.map Span.stop) := by
  induction spans generalizing a with
  | nil => rfl
  | cons s spans ih =>
    obtain ⟨hstart, -, hrest⟩ := h
    rw [List.map_cons, List.map_cons, List.zip_cons_cons, ih hrest, hstart]

/-- The slices of spans that follow each other add up. -/
theorem Tiles.flatten_slices {a b : Nat} {spans : List Span} (h : Tiles a b spans)
    (cs : List Char) : (spans.map fun s => slice cs s.start s.stop).flatten = slice cs a b := by
  induction spans generalizing a with
  | nil =>
    obtain rfl : a = b := h
    exact (slice_self cs a).symm
  | cons s spans ih =>
    obtain ⟨rfl, hlt, hrest⟩ := h
    rw [List.map_cons, List.flatten_cons, ih hrest, slice_append (Nat.le_of_lt hlt) hrest.le]

/-- The sweep tiles what is ahead of it, with a cut at every event. -/
theorem sweep_tiles {length : Nat} (hlength : 0 < length) :
    ∀ (rest : List Event) {previous : Nat} (active : List String),
      (rest.Pairwise fun a b => a.offset ≤ b.offset) →
      (∀ e ∈ rest, previous ≤ e.offset ∧ e.offset ≤ length) → previous ≤ length →
      Tiles previous length (sweep length previous active rest)
        ∧ ∀ x, x ∈ (sweep length previous active rest).map Span.stop
            ↔ previous < x ∧ (x = length ∨ ∃ e ∈ rest, e.offset = x) := by
  intro rest
  induction rest with
  | nil =>
    -- The last span is there unless a match ended with the text.
    intro previous active _ _ hprevious
    rw [sweep]
    by_cases hlast : previous < length
    · rw [if_pos (by simp [hlast])]
      refine ⟨⟨rfl, hlast, rfl⟩, fun x => ?_⟩
      simp only [List.map_cons, List.map_nil, List.mem_singleton, List.not_mem_nil, false_and,
        exists_false, or_false]
      omega
    · have hzero : ¬ previous = 0 := by omega
      rw [if_neg (by simp [hlast, hzero])]
      refine ⟨show previous = length by omega, fun x => ?_⟩
      simp only [List.map_nil, List.not_mem_nil, false_and, exists_false, or_false, false_iff]
      omega
  | cons e rest ih =>
    intro previous active hsorted hbounds hprevious
    obtain ⟨hahead, hsorted⟩ := List.pairwise_cons.mp hsorted
    obtain ⟨hfirst, hinside⟩ := hbounds e (List.mem_cons_self ..)
    have hlater : ∀ d ∈ rest, e.offset ≤ d.offset ∧ d.offset ≤ length := fun d hd =>
      ⟨hahead d hd, (hbounds d (List.mem_cons_of_mem _ hd)).2⟩
    rw [sweep]
    by_cases hcut : previous < e.offset
    · rw [if_pos hcut]
      obtain ⟨htiles, hstops⟩ := ih (e.update active) hsorted hlater hinside
      refine ⟨⟨rfl, hcut, htiles⟩, fun x => ?_⟩
      rw [List.map_cons, List.mem_cons, hstops, List.exists_mem_cons_iff]
      constructor
      · rintro (rfl | ⟨hlt, hx⟩)
        · exact ⟨hcut, .inr (.inl rfl)⟩
        · exact ⟨by omega, hx.imp id .inr⟩
      · rintro ⟨hlt, rfl | rfl | ⟨d, hd, rfl⟩⟩
        · rcases Nat.lt_or_eq_of_le hinside with hmore | hsame
          · exact .inr ⟨hmore, .inl rfl⟩
          · exact .inl hsame.symm
        · exact .inl rfl
        · rcases Nat.lt_or_eq_of_le (hahead d hd) with hmore | hsame
          · exact .inr ⟨hmore, .inr ⟨d, hd, rfl⟩⟩
          · exact .inl hsame.symm
    · -- One more event at the same offset makes no further cut.
      rw [if_neg hcut]
      have hsame : e.offset = previous := by omega
      rw [hsame] at hlater
      obtain ⟨htiles, hstops⟩ := ih (e.update active) hsorted hlater hprevious
      refine ⟨htiles, fun x => ?_⟩
      rw [hstops, List.exists_mem_cons_iff, hsame]
      constructor
      · rintro ⟨hlt, hx⟩
        exact ⟨hlt, hx.imp id .inr⟩
      · rintro ⟨hlt, hx | hx | hx⟩
        · exact ⟨hlt, .inl hx⟩
        · omega
        · exact ⟨hlt, .inr hx⟩

/-- The labels of a span are a set, in increasing order. -/
theorem distinctLabels_spec (labels : List String) :
    (distinctLabels labels).Pairwise (· < ·)
      ∧ ∀ label, label ∈ distinctLabels labels ↔ label ∈ labels := by
  have hperm : (distinctLabels labels).Perm labels.eraseDups := List.mergeSort_perm _ _
  refine ⟨?_, fun label => by rw [hperm.mem_iff, List.mem_eraseDups]⟩
  have hsorted : (distinctLabels labels).Pairwise (· ≤ ·) := by
    refine (List.pairwise_mergeSort ?_ ?_ _).imp of_decide_eq_true
    · intro a b c hab hbc
      exact decide_eq_true (String.le_trans (of_decide_eq_true hab) (of_decide_eq_true hbc))
    · intro a b
      simpa using String.le_total a b
  have hnodup : (distinctLabels labels).Nodup := hperm.nodup_iff.mpr (nodup_eraseDups labels)
  refine (hsorted.and hnodup).imp ?_
  rintro a b ⟨hle, hne⟩
  exact lt_of_le_of_ne hle hne

/-- The labels of the next span, when the sweep stands between two cuts. -/
theorem Swept.span_labels {ms : List Match} {before rest : List Event} {active : List String}
    (h : Swept ms before rest active) (hms : ∀ m ∈ ms, m.start < m.stop) {a b : Nat} (hab : a < b)
    (hbefore : ∀ e ∈ before, e.offset ≤ a) (hrest : ∀ e ∈ rest, b ≤ e.offset) :
    (distinctLabels active).Pairwise (· < ·)
      ∧ ∀ label, label ∈ distinctLabels active
          ↔ ∃ m ∈ ms, m.label = label ∧ m.start ≤ a ∧ b ≤ m.stop := by
  obtain ⟨hsorted, hmem⟩ := distinctLabels_spec active
  refine ⟨hsorted, fun label => (hmem label).trans ?_⟩
  exact h.mem_active_iff hms hab hbefore hrest label

/-- Every span that the sweep writes has the labels of the matches that cover it. -/
theorem sweep_labels {ms : List Match} (hms : ∀ m ∈ ms, m.start < m.stop) {length : Nat}
    (hlength : 0 < length) :
    ∀ (rest : List Event) {before : List Event} {previous : Nat} {active : List String},
      Swept ms before rest active → (∀ e ∈ before, e.offset ≤ previous) →
      (∀ e ∈ rest, previous ≤ e.offset) →
      ∀ s ∈ sweep length previous active rest, s.labels.Pairwise (· < ·)
        ∧ ∀ label, label ∈ s.labels
            ↔ ∃ m ∈ ms, m.label = label ∧ m.start ≤ s.start ∧ s.stop ≤ m.stop := by
  intro rest
  induction rest with
  | nil =>
    intro before previous active hswept hbefore _ s hs
    rw [sweep] at hs
    split at hs
    next hlast =>
      have hlt : previous < length := by
        simp only [Bool.or_eq_true, decide_eq_true_eq, beq_iff_eq] at hlast
        omega
      rw [List.mem_singleton.mp hs]
      exact hswept.span_labels hms hlt hbefore fun e he => absurd he List.not_mem_nil
    next => cases hs
  | cons e rest ih =>
    intro before previous active hswept hbefore hrest s hs
    have hfirst := hrest e (List.mem_cons_self ..)
    have hahead : ∀ d ∈ rest, e.offset ≤ d.offset :=
      (List.pairwise_cons.mp (List.pairwise_append.mp hswept.sorted).2.1).1
    have hbehind : ∀ d ∈ before ++ [e], d.offset ≤ e.offset := by
      intro d hd
      rcases List.mem_append.mp hd with hd | hd
      · exact Nat.le_trans (hbefore d hd) hfirst
      · rw [List.mem_singleton.mp hd]
    rw [sweep] at hs
    split at hs
    next hcut =>
      rcases List.mem_cons.mp hs with rfl | hs
      · refine hswept.span_labels hms hcut hbefore fun d hd => ?_
        rcases List.mem_cons.mp hd with rfl | hd
        · exact Nat.le_refl _
        · exact hahead d hd
      · exact ih (hswept.step hms) hbehind hahead s hs
    next hcut =>
      have hsame : e.offset = previous := by omega
      rw [hsame] at hbehind hahead
      exact ih (hswept.step hms) hbehind hahead s hs

/-! ## The whole of a text -/

/-- The offsets where a text of some length is cut: its ends, and those of every match. -/
def cuts (ms : List Match) (length : Nat) : List Nat :=
  (0 :: length :: ms.flatMap fun m => [m.start, m.stop]).toFinset.sort (· ≤ ·)

/-- What the spans of a text are, by its matches. -/
structure Resolved (ms : List Match) (text : String) (spans : List Span) : Prop where
  /-- There is one span for each pair of consecutive cuts. -/
  cut : spans.map (fun s => (s.start, s.stop))
    = (cuts ms text.utf8ByteSize).zip (cuts ms text.utf8ByteSize).tail
  /-- A label belongs to a span exactly when one of its matches covers the whole span. -/
  labelled : ∀ s ∈ spans, s.labels.Pairwise (· < ·)
    ∧ ∀ label, label ∈ s.labels
        ↔ ∃ m ∈ ms, m.label = label ∧ m.start ≤ s.start ∧ s.stop ≤ m.stop
  tiles : Tiles 0 text.utf8ByteSize spans
  /-- Spans start and stop between characters. -/
  boundaries : ∀ s ∈ spans,
    Text.IsBoundary text.toList s.start ∧ Text.IsBoundary text.toList s.stop
  sized : ∀ s ∈ spans, Text.byteLength (slice text.toList s.start s.stop) = s.length
  /-- Put together, the texts of the spans are the text. -/
  slices : (spans.map fun s => slice text.toList s.start s.stop).flatten = text.toList

/-- An increasing list of what cuts a text is its list of cuts. -/
theorem cuts_eq {ms : List Match} {length : Nat} {offsets : List Nat}
    (hsorted : offsets.Pairwise (· < ·))
    (hmem : ∀ x, x ∈ offsets ↔ x = 0 ∨ x = length ∨ ∃ m ∈ ms, x = m.start ∨ x = m.stop) :
    cuts ms length = offsets := by
  have hset : (0 :: length :: ms.flatMap fun m => [m.start, m.stop]).toFinset
      = offsets.toFinset := by
    ext x
    simp [hmem]
  rw [cuts, hset]
  exact (List.toFinset_sort (· ≤ ·) (hsorted.imp Nat.ne_of_lt)).mpr (hsorted.imp Nat.le_of_lt)

/-- In front of all events the sweep has come through none. -/
theorem swept_start {ms : List Match} {events : List Event}
    (hperm : events.Perm (matchEvents ms))
    (hsorted : events.Pairwise fun a b => a.offset ≤ b.offset) : Swept ms [] events [] :=
  ⟨hperm, hsorted, fun _ => rfl⟩

/-- Events are where matches start and stop. -/
theorem exists_event_iff {ms : List Match} {events : List Event}
    (hperm : events.Perm (matchEvents ms)) {x : Nat} :
    (∃ e ∈ events, e.offset = x) ↔ ∃ m ∈ ms, x = m.start ∨ x = m.stop := by
  simp only [hperm.mem_iff, mem_matchEvents]
  constructor
  · rintro ⟨e, ⟨m, hm, rfl | rfl⟩, rfl⟩
    · exact ⟨m, hm, .inl rfl⟩
    · exact ⟨m, hm, .inr rfl⟩
  · rintro ⟨m, hm, rfl | rfl⟩
    · exact ⟨_, ⟨m, hm, .inl rfl⟩, rfl⟩
    · exact ⟨_, ⟨m, hm, .inr rfl⟩, rfl⟩

/-- The sweep cuts and labels a text as any matches say that lie inside it, between its
characters. How they were found does not matter, nor in which order the events at one
offset come. -/
theorem sweep_resolved_of_perm {ms : List Match} {text : String} (hpos : 0 < text.utf8ByteSize)
    (hms : ∀ m ∈ ms, m.Inside text) {events : List Event}
    (hperm : events.Perm (matchEvents ms))
    (hsorted : events.Pairwise fun a b => a.offset ≤ b.offset) :
    Resolved ms text (sweep text.utf8ByteSize 0 [] events) := by
  have hevents : ∀ e ∈ events, 0 ≤ e.offset ∧ e.offset ≤ text.utf8ByteSize := by
    intro e he
    obtain ⟨m, hm, hends⟩ := (exists_event_iff hperm).mp ⟨e, he, rfl⟩
    have hlt := (hms m hm).lt
    have hle := (hms m hm).stop_le
    omega
  obtain ⟨htiles, hstops⟩ := sweep_tiles hpos _ [] hsorted hevents (Nat.zero_le _)
  have hlabels := sweep_labels (fun m hm => (hms m hm).lt) hpos _ (swept_start hperm hsorted)
    (fun e he => absurd he List.not_mem_nil) (fun e he => (hevents e he).1)
  generalize sweep text.utf8ByteSize 0 [] events = spans at *
  have hcuts : ∀ x, x ∈ 0 :: spans.map Span.stop
      ↔ x = 0 ∨ x = text.utf8ByteSize ∨ ∃ m ∈ ms, x = m.start ∨ x = m.stop := by
    intro x
    rw [List.mem_cons, hstops, exists_event_iff hperm]
    rcases Nat.eq_zero_or_pos x with rfl | hx
    · simp
    · simp [hx]
  have hboundary : ∀ x ∈ 0 :: spans.map Span.stop, Text.IsBoundary text.toList x := by
    intro x hx
    rcases (hcuts x).mp hx with rfl | rfl | ⟨m, hm, rfl | rfl⟩
    · exact ⟨0, Nat.zero_le _, rfl⟩
    · refine ⟨text.toList.length, Nat.le_refl _, ?_⟩
      rw [List.take_length, Text.utf8ByteSize_eq_byteLength]
    · exact (hms m hm).start_boundary
    · exact (hms m hm).stop_boundary
  have hends : ∀ s ∈ spans,
      Text.IsBoundary text.toList s.start ∧ Text.IsBoundary text.toList s.stop := by
    intro s hs
    have hpair := List.mem_map_of_mem (f := fun s : Span => (s.start, s.stop)) hs
    rw [htiles.map_eq_zip] at hpair
    obtain ⟨hstart, hstop⟩ := List.of_mem_zip hpair
    exact ⟨hboundary _ hstart, hboundary _ (List.mem_cons_of_mem _ hstop)⟩
  refine ⟨?_, hlabels, htiles, hends, fun s hs => ?_, ?_⟩
  · rw [cuts_eq htiles.increasing hcuts, List.tail_cons]
    exact htiles.map_eq_zip
  · exact byteLength_slice (Nat.le_of_lt (htiles.lt_of_mem hs)) (hends s hs).1 (hends s hs).2
  · rw [htiles.flatten_slices, Text.utf8ByteSize_eq_byteLength, slice_all]

/-- A sweep over the ends of matches inside the text resolves them. -/
private theorem sweep_resolved {ms : List Match} {text : String} (hpos : 0 < text.utf8ByteSize)
    (hms : ∀ m ∈ ms, m.Inside text) :
    Resolved ms text
      (sweep text.utf8ByteSize 0 [] ((matchEvents ms).mergeSort Event.le)) :=
  sweep_resolved_of_perm hpos hms (List.mergeSort_perm _ _) (matchEvents_sorted ms)

/-- Nothing is found in the empty text but empty matches, which do not count. -/
private theorem found_empty {patterns : PatternSet} {text : String} (h : text.utf8ByteSize = 0) :
    found patterns text = [] := by
  refine List.eq_nil_iff_forall_not_mem.mpr fun m hm => ?_
  have hlt := (found_spec hm).lt
  have hle := (found_spec hm).stop_le
  omega

/-- **Spans are what their matches say**, for everything that can be searched for. The
matches that count are the non-empty ones, and they lie inside the text. An empty text is one
span without labels; any other text is cut at its ends and those of its matches, and each
span has the labels of the matches that cover it. -/
theorem resolve_meets_spec (patterns : PatternSet) (text : String) :
    (∀ m, m ∈ found patterns text ↔ ∃ p ∈ patterns, m.label = p.label
        ∧ (m.start, m.stop) ∈ p.regex.findAll text ∧ m.start ≠ m.stop)
      ∧ (∀ m ∈ found patterns text, m.Inside text)
      ∧ (text.utf8ByteSize = 0 → resolve patterns text = [⟨0, 0, []⟩])
      ∧ (text.utf8ByteSize ≠ 0 →
          Resolved (found patterns text) text (resolve patterns text)) := by
  rw [resolve, boundaryEvents_eq]
  refine ⟨fun m => mem_found, fun m hm => found_spec hm, fun hzero => ?_,
    fun hpos => sweep_resolved (Nat.pos_of_ne_zero hpos) fun m hm => found_spec hm⟩
  rw [found_empty hzero, hzero]
  simp [matchEvents, sweep, distinctLabels]

/-- A word, runs of one of its letters, which are empty elsewhere, and a letter of two
bytes. -/
def wordPatterns : PatternSet :=
  [⟨(Pattern.Expr.seq (.chars (.single 'a')) (.chars (.single 'b'))).toRegex "ab", "outer"⟩,
    ⟨(Pattern.Expr.star (.chars (.single 'b')) true).toRegex "b*", "inner"⟩,
    ⟨(Pattern.Expr.chars (.single 'é')).toRegex "é", "accent"⟩]

/-- The matches nest and touch, and the empty ones leave no span. -/
theorem wordPatterns_meet_spec :
    "xabé".utf8ByteSize = 5
      ∧ wordPatterns.map (fun p => p.regex.findAll "xabé")
          = [[(1, 3)], [(0, 0), (1, 1), (2, 3), (5, 5)], [(3, 5)]]
      ∧ found wordPatterns "xabé" = [⟨"outer", 1, 3⟩, ⟨"inner", 2, 3⟩, ⟨"accent", 3, 5⟩]
      ∧ Resolved (found wordPatterns "xabé") "xabé" (resolve wordPatterns "xabé")
      ∧ resolve wordPatterns "" = [⟨0, 0, []⟩] := by
  obtain ⟨-, -, -, hfound⟩ := resolve_meets_spec wordPatterns "xabé"
  obtain ⟨-, -, hempty, -⟩ := resolve_meets_spec wordPatterns ""
  exact ⟨by decide, by decide, by rfl, hfound (by decide), hempty (by decide)⟩

end Highlight

end Classdesk
