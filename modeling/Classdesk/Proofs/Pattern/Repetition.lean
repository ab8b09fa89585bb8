import Classdesk.Pattern.Extent

/-!
# Where expressions can end

`Expr.ends` lists ends in order of preference. Which ends it lists is a matter of the
expression alone, and is said here by one equivalence per constructor. The one with an argument
in it is that of loops:

> `mem_ends_star`: a loop can end exactly where some rounds in a row lead that each move on.

The loop keeps the ends it has found and does not start again from one of them. Nothing is lost
by that: from the current position on, what was found holds with an end also everything one
round further (`ClosedFrom`), so a position that was found has nothing new to add.
-/

namespace Classdesk.Pattern

/-- From `i` on, what was found holds everything one round further. -/
def ClosedFrom (step : Nat → List Nat) (i : Nat) (found : List Nat) : Prop :=
  ∀ a ∈ found, i ≤ a → ∀ b ∈ step a, a < b → b ∈ found

/-- A set that is closed from an index on is closed from every later one. -/
theorem ClosedFrom.mono {step : Nat → List Nat} {i j : Nat} {found : List Nat}
    (h : ClosedFrom step i found) (hij : i ≤ j) : ClosedFrom step j found :=
  fun a ha hja => h a ha (Nat.le_trans hij hja)

/-- A closed set holds all that can be reached from its elements. -/
private theorem ClosedFrom.mem_of_rounds {step : Nat → List Nat} {i j : Nat} {found : List Nat}
    (h : ClosedFrom step i found) (hi : i ∈ found) (hrounds : Rounds step i j) : j ∈ found := by
  induction hrounds with
  | refl => exact hi
  | tail hbefore hstep ih => exact h _ ih (Rounds.le hbefore) _ hstep.1 hstep.2

section Loops

variable {step : Nat → List Nat} {greedy : Bool}

/-- What holds of the ends after a loop from `i`, given those before it. -/
structure Explores (step : Nat → List Nat) (i : Nat) (found after : List Nat) : Prop where
  kept : ∀ a ∈ found, a ∈ after
  start : i ∈ after
  closed : ClosedFrom step i after

/-- What holds of the ends after rounds from `i` to `ks`, given those before them. -/
structure Advances (step : Nat → List Nat) (i : Nat) (ks found after : List Nat) : Prop where
  kept : ∀ a ∈ found, a ∈ after
  added : ∀ k ∈ ks, i < k → k ∈ after
  closed : ClosedFrom step (i + 1) after

/-- One round: behind `i` the ends stay closed, and the end of the round is added. -/
private theorem oneRound_advances {fuel i k : Nat} {found : List Nat}
    (hloop : i < k → Explores step k found (loopEnds step greedy fuel k found))
    (h : ClosedFrom step (i + 1) found) :
    Advances step i [k] found (oneRound step greedy fuel i found k) := by
  unfold oneRound
  by_cases hik : i < k
  · rw [if_pos hik]
    have hdeeper := hloop hik
    refine ⟨hdeeper.kept, fun l hl _ => List.mem_singleton.mp hl ▸ hdeeper.start, ?_⟩
    intro a ha hia b hb hab
    rcases loopEnds_sound fuel ha with hold | hnew
    · exact hdeeper.kept b (h a hold hia b hb hab)
    · exact hdeeper.closed a ha hnew.le b hb hab
  · rw [if_neg hik]
    refine ⟨fun a ha => mem_addEnd_iff.mpr (.inr ha),
      fun l hl hil => absurd (List.mem_singleton.mp hl ▸ hil) hik, ?_⟩
    intro a ha hia b hb hab
    rcases mem_addEnd_iff.mp ha with rfl | ha
    · omega
    · exact mem_addEnd_iff.mpr (.inr (h a ha hia b hb hab))

/-- The rounds from one position, one after the other. -/
private theorem rounds_advance {fuel i : Nat} {ks found : List Nat}
    (hloop : ∀ k ∈ ks, ∀ found, i < k → ClosedFrom step (i + 1) found →
      Explores step k found (loopEnds step greedy fuel k found))
    (h : ClosedFrom step (i + 1) found) :
    Advances step i ks found (ks.foldl (oneRound step greedy fuel i) found) := by
  induction ks generalizing found with
  | nil => exact ⟨fun _ => id, nofun, h⟩
  | cons k ks ih =>
    have hround := oneRound_advances (fun hik => hloop k List.mem_cons_self found hik h) h
    have hrest := ih (fun l hl => hloop l (List.mem_cons_of_mem _ hl)) hround.closed
    refine ⟨fun a ha => hrest.kept a (hround.kept a ha), ?_, hrest.closed⟩
    intro l hl hil
    rcases List.mem_cons.mp hl with rfl | hl
    · exact hrest.kept l (hround.added l List.mem_cons_self hil)
    · exact hrest.added l hl hil

/-- The ends before the rounds from `i` are closed behind it. -/
private theorem closed_before {i : Nat} {found : List Nat} (h : ClosedFrom step i found) :
    ClosedFrom step (i + 1) (if greedy then found else i :: found) := by
  cases greedy with
  | true => exact h.mono (Nat.le_succ i)
  | false =>
    intro a ha hia b hb hab
    rcases List.mem_cons.mp ha with rfl | ha
    · omega
    · exact List.mem_cons_of_mem _ (h a ha (Nat.le_of_succ_le hia) b hb hab)

/-- A loop misses nothing: what it leaves is closed again, and its start is in it. -/
theorem loopEnds_explores {size : Nat} (hstep : ∀ a b, a ≤ size → b ∈ step a → b ≤ size)
    (fuel : Nat) {i : Nat} {found : List Nat} (hi : i ≤ size) (hfuel : size ≤ i + fuel)
    (h : ClosedFrom step i found) : Explores step i found (loopEnds step greedy fuel i found) := by
  induction fuel generalizing i found with
  | zero =>
    refine ⟨fun a ha => mem_addEnd_iff.mpr (.inr ha), mem_addEnd_iff.mpr (.inl rfl), ?_⟩
    intro a ha hia b hb hab
    rcases mem_addEnd_iff.mp ha with rfl | ha
    · -- There is nothing behind the end of the text.
      have hbound := hstep _ b hi hb
      omega
    · exact mem_addEnd_iff.mpr (.inr (h a ha hia b hb hab))
  | succ fuel ih =>
    rw [loopEnds_succ]
    by_cases hfound : found.contains i = true
    · rw [if_pos hfound]
      exact ⟨fun _ => id, List.contains_iff_mem.mp hfound, h⟩
    · rw [if_neg hfound]
      have hbefore : ∀ a ∈ found, a ∈ (if greedy then found else i :: found) := by
        intro a ha
        cases greedy with
        | true => exact ha
        | false => exact List.mem_cons_of_mem _ ha
      have hclosed : ClosedFrom step (i + 1) (if greedy then found else i :: found) :=
        closed_before h
      have hrounds := rounds_advance (fun k hk earlier hik hearlier =>
        ih (hstep i k hi hk) (by omega) (hearlier.mono hik)) hclosed
      refine ⟨fun a ha => mem_addEnd_iff.mpr (.inr (hrounds.kept a (hbefore a ha))),
        mem_addEnd_iff.mpr (.inl rfl), ?_⟩
      intro a ha hia b hb hab
      refine mem_addEnd_iff.mpr (.inr ?_)
      -- What stands at `i` was added by its own round, what lies behind it is closed.
      by_cases hai : a = i
      · subst hai
        exact hrounds.added b hb hab
      · rcases mem_addEnd_iff.mp ha with heq | ha
        · exact absurd heq hai
        · exact hrounds.closed a ha (by omega) b hb hab

end Loops

namespace Expr

variable {text : Array Char} {i j : Nat}

/-! ## One equivalence per constructor -/

theorem mem_ends_chars {set : CharSet} :
    j ∈ (chars set).ends text i ↔ j = i + 1 ∧ ∃ c, text[i]? = some c ∧ set.has c = true := by
  rw [ends]
  split
  next hset =>
    have hc : ∃ c, text[i]? = some c ∧ set.has c = true := by
      simpa [Option.any_eq_true] using hset
    exact ⟨fun h => ⟨List.mem_singleton.mp h, hc⟩, fun h => List.mem_singleton.mpr h.1⟩
  next hset =>
    simp only [List.not_mem_nil, false_iff, not_and, not_exists]
    intro _ c hc
    simpa [hc] using hset

/-- A sequence ends where its second part ends behind its first. -/
theorem mem_ends_seq {first second : Expr} :
    j ∈ (seq first second).ends text i ↔ ∃ k ∈ first.ends text i, j ∈ second.ends text k := by
  rw [ends, List.mem_eraseDups, List.mem_flatMap]

/-- A choice ends where either side does. -/
theorem mem_ends_alt {left right : Expr} :
    j ∈ (alt left right).ends text i ↔ j ∈ left.ends text i ∨ j ∈ right.ends text i := by
  rw [ends, List.mem_eraseDups, List.mem_append]

/-- **A loop ends where rounds in a row lead.** -/
theorem mem_ends_star {body : Expr} {greedy : Bool} (hi : i ≤ text.size) :
    j ∈ (star body greedy).ends text i ↔ Rounds (body.ends text) i j := by
  rw [ends, List.mem_reverse]
  constructor
  · intro h
    rcases loopEnds_sound _ h with h | h
    · cases h
    · exact h
  · intro h
    have hexplores : Explores (body.ends text) i []
        (loopEnds (body.ends text) greedy (text.size - i) i []) :=
      loopEnds_explores (fun a b ha hb => (ends_within body ha hb).2) _ hi (by omega)
        fun a ha => absurd ha List.not_mem_nil
    exact hexplores.closed.mem_of_rounds hexplores.start h

/-- Rounds of a single character lead over characters of the set. -/
theorem rounds_chars {set : CharSet} :
    Rounds ((chars set).ends text) i j
      ↔ i ≤ j ∧ ∀ k, i ≤ k → k < j → ∃ c, text[k]? = some c ∧ set.has c = true := by
  constructor
  · intro h
    refine ⟨h.le, ?_⟩
    induction h with
    | refl =>
      intro k hik hki
      omega
    | tail _ hround ih =>
      obtain ⟨rfl, hlast⟩ := mem_ends_chars.mp hround.1
      intro k hik hkj
      rcases Nat.lt_succ_iff_lt_or_eq.mp hkj with hlt | rfl
      · exact ih k hik hlt
      · exact hlast
  · rintro ⟨hij, hall⟩
    induction hij with
    | refl => exact .refl
    | @step j hij ih =>
      have hbefore := ih fun k hik hkj => hall k hik (Nat.lt_succ_of_lt hkj)
      have hlast := hall j hij (Nat.lt_succ_self j)
      exact hbefore.tail ⟨mem_ends_chars.mpr ⟨rfl, hlast⟩, Nat.lt_succ_self j⟩

end Expr

/-! ## Sets of single characters -/

private theorem SetItem.has_range_self {c d : Char} : (range c c).has d = true ↔ d = c := by
  rw [SetItem.has, Bool.and_eq_true, decide_eq_true_eq, decide_eq_true_eq]
  exact ⟨fun h => Char.le_antisymm h.2 h.1, fun h => h ▸ ⟨Char.le_refl _, Char.le_refl _⟩⟩

theorem CharSet.has_single {c d : Char} : (single c).has d = true ↔ d = c := by
  rw [← SetItem.has_range_self]
  simp [CharSet.has, CharSet.single]

/-- The set of all characters but those listed. -/
theorem CharSet.has_noneOf {cs : List Char} {d : Char} :
    (CharSet.mk (cs.map fun c => .range c c) true false).has d = true ↔ d ∉ cs := by
  have hany : (cs.map fun c => SetItem.range c c).any (·.has d) = true ↔ d ∈ cs := by
    rw [List.any_map, List.any_eq_true]
    constructor
    · rintro ⟨c, hc, hd⟩
      exact SetItem.has_range_self.mp hd ▸ hc
    · intro hd
      exact ⟨d, hd, SetItem.has_range_self.mpr rfl⟩
  rw [← hany]
  simp [CharSet.has]

end Classdesk.Pattern
