import Classdesk.Pattern.Expr

/-!
# How far expressions reach

An expression that starts at a position of the text ends there or further on, and inside
the text:

> `Expr.ends_within`: `i ≤ j` and `j ≤ text.size` for every end `j` from `i`.

Loops are the only place with something to show. They collect ends in a list that is
passed along, and what they add to it are ends that some rounds lead to (`loopEnds_sound`).
-/

namespace Classdesk.Pattern

/-- Adding an end adds it and nothing else, and does not add it twice. -/
theorem mem_addEnd_iff {i j : Nat} {found : List Nat} :
    j ∈ addEnd i found ↔ j = i ∨ j ∈ found := by
  unfold addEnd
  by_cases hfound : found.contains i = true
  · rw [if_pos hfound]
    constructor
    · exact .inr
    · rintro (rfl | hj)
      · exact List.contains_iff_mem.mp hfound
      · exact hj
  · rw [if_neg hfound, List.mem_cons]

/-- Some rounds of a loop, one after the other, each moving on. -/
inductive Rounds (step : Nat → List Nat) (i : Nat) : Nat → Prop
  | refl : Rounds step i i
  | tail {j k : Nat} (before : Rounds step i j) (round : k ∈ step j ∧ j < k) : Rounds step i k

section Loops

variable {step : Nat → List Nat} {greedy : Bool}

/-- A round in front of others. -/
theorem Rounds.head {i j k : Nat} (hround : j ∈ step i ∧ i < j) (h : Rounds step j k) :
    Rounds step i k := by
  induction h with
  | refl => exact .tail .refl hround
  | tail _ hlast ih => exact .tail ih hlast

/-- Rounds only go forward. -/
theorem Rounds.le {i j : Nat} (h : Rounds step i j) : i ≤ j := by
  induction h with
  | refl => exact Nat.le_refl _
  | tail _ hround ih => exact Nat.le_trans ih (Nat.le_of_lt hround.2)

/-- Rounds that stay inside the text lead to an end inside it. -/
theorem Rounds.within {size i j : Nat} (hstep : ∀ i j, i ≤ size → j ∈ step i → i ≤ j ∧ j ≤ size)
    (hi : i ≤ size) (h : Rounds step i j) : j ≤ size := by
  induction h with
  | refl => exact hi
  | tail _ hround ih => exact (hstep _ _ ih hround.1).2

/-- One round: the ends behind `k`, or `i` itself when the round did not move. -/
def oneRound (step : Nat → List Nat) (greedy : Bool) (fuel i : Nat) (found : List Nat) (k : Nat) :
    List Nat :=
  if i < k then loopEnds step greedy fuel k found else addEnd i found

/-- One visit of a position: the ends of the rounds from there, and the position before or behind
them. -/
theorem loopEnds_succ (fuel i : Nat) (found : List Nat) :
    loopEnds step greedy (fuel + 1) i found
      = if found.contains i then found
        else addEnd i ((step i).foldl (oneRound step greedy fuel i)
          (if greedy then found else i :: found)) := rfl

/-- A round finds what rounds lead to if the loop behind it does. -/
private theorem oneRound_sound {fuel i j k : Nat} {found : List Nat}
    (hloop : ∀ found, j ∈ loopEnds step greedy fuel k found → j ∈ found ∨ Rounds step k j)
    (hk : k ∈ step i) (h : j ∈ oneRound step greedy fuel i found k) :
    j ∈ found ∨ Rounds step i j := by
  unfold oneRound at h
  by_cases hik : i < k
  · rw [if_pos hik] at h
    rcases hloop found h with hj | hj
    · exact .inl hj
    · exact .inr (.head ⟨hk, hik⟩ hj)
  · rw [if_neg hik] at h
    rcases mem_addEnd_iff.mp h with rfl | hj
    · exact .inr .refl
    · exact .inl hj

/-- So do the rounds from one position, one after the other. -/
private theorem rounds_sound {fuel i j : Nat} {ks found : List Nat}
    (hloop : ∀ k found, j ∈ loopEnds step greedy fuel k found → j ∈ found ∨ Rounds step k j)
    (hks : ∀ k ∈ ks, k ∈ step i) (h : j ∈ ks.foldl (oneRound step greedy fuel i) found) :
    j ∈ found ∨ Rounds step i j := by
  induction ks generalizing found with
  | nil => exact .inl h
  | cons k ks ih =>
    rcases ih (fun l hl => hks l (List.mem_cons_of_mem _ hl)) h with hj | hj
    · exact oneRound_sound (hloop k) (hks k List.mem_cons_self) hj
    · exact .inr hj

/-- What a loop finds is led to by rounds. -/
theorem loopEnds_sound (fuel : Nat) {i j : Nat} {found : List Nat}
    (h : j ∈ loopEnds step greedy fuel i found) : j ∈ found ∨ Rounds step i j := by
  induction fuel generalizing i found with
  | zero =>
    rcases mem_addEnd_iff.mp h with rfl | hj
    · exact .inr .refl
    · exact .inl hj
  | succ fuel ih =>
    rw [loopEnds_succ] at h
    by_cases hfound : found.contains i = true
    · rw [if_pos hfound] at h
      exact .inl h
    · rw [if_neg hfound] at h
      rcases mem_addEnd_iff.mp h with rfl | h
      · exact .inr .refl
      · rcases rounds_sound (fun _ _ => ih) (fun _ => id) h with h | h
        · cases greedy with
          | true => exact .inl h
          | false =>
            rcases List.mem_cons.mp h with rfl | h
            · exact .inr .refl
            · exact .inl h
        · exact .inr h

end Loops

/-- **Ends lie behind their start**, inside the text. -/
theorem Expr.ends_within {text : Array Char} (e : Expr) {i j : Nat} (hi : i ≤ text.size)
    (hj : j ∈ e.ends text i) : i ≤ j ∧ j ≤ text.size := by
  induction e generalizing i j with
  | empty =>
    rw [List.mem_singleton.mp hj]
    exact ⟨Nat.le_refl _, hi⟩
  | chars set =>
    rw [ends] at hj
    split at hj
    next hset =>
      rw [List.mem_singleton.mp hj]
      have hlt : i < text.size := by
        cases hget : text[i]? with
        | none => simp [hget] at hset
        | some c => exact (Array.getElem?_eq_some_iff.mp hget).1
      exact ⟨Nat.le_succ _, hlt⟩
    next => cases hj
  | look condition =>
    rw [ends] at hj
    split at hj
    next =>
      rw [List.mem_singleton.mp hj]
      exact ⟨Nat.le_refl _, hi⟩
    next => cases hj
  | seq first second ihf ihs =>
    rw [ends, List.mem_eraseDups, List.mem_flatMap] at hj
    obtain ⟨k, hk, hj⟩ := hj
    have hfirst := ihf hi hk
    have hsecond := ihs hfirst.2 hj
    exact ⟨Nat.le_trans hfirst.1 hsecond.1, hsecond.2⟩
  | alt left right ihl ihr =>
    rw [ends, List.mem_eraseDups, List.mem_append] at hj
    rcases hj with hj | hj
    · exact ihl hi hj
    · exact ihr hi hj
  | star body greedy ih =>
    rw [ends, List.mem_reverse] at hj
    rcases loopEnds_sound _ hj with hj | hrounds
    · cases hj
    · exact ⟨hrounds.le, hrounds.within (fun _ _ => ih) hi⟩

end Classdesk.Pattern
