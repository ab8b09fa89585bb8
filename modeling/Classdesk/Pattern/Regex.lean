import Classdesk.Pattern.Extent
import Classdesk.Pattern.Parser
import Classdesk.Text.ByteOffset

/-!
# Searching for all matches

A `Regex` is something that can be searched for in a text. Whoever uses one need not know
how it searches: all that is asked of the ranges it finds is that they lie between
characters, one behind the other (`InOrder`). A range may be empty.

Expressions are searched for from left to right. A search goes on where the last match
stopped, and an empty match right behind the last one is passed over.
-/

namespace Classdesk.Pattern

/-- Ranges of bytes in a text that lie between its characters, one behind the other. -/
structure InOrder (text : String) (ranges : List (Nat × Nat)) : Prop where
  le : ∀ r ∈ ranges, r.1 ≤ r.2
  boundaries : ∀ r ∈ ranges,
    Text.IsBoundary text.toList r.1 ∧ Text.IsBoundary text.toList r.2
  ordered : ranges.Pairwise fun r q => r.2 ≤ q.1

/-- Something to search for, as it is written, with the ranges of bytes that a search
through a text finds, empty ones among them. -/
structure Regex where
  source : String
  findAll : String → List (Nat × Nat)
  inOrder : ∀ text, InOrder text (findAll text)

namespace Expr

/-! ## Searching by characters -/

/-- The first match that starts at `i` or at one of the next `fuel` positions. -/
def find? (e : Expr) (text : Array Char) : (fuel i : Nat) → Option (Nat × Nat)
  | 0, i => (e.ends text i).head?.map fun j => (i, j)
  | fuel + 1, i =>
    match (e.ends text i).head? with
    | some j => some (i, j)
    | none => find? e text fuel (i + 1)

/-- Matches from `i` on, one behind the other, when the one before stopped at `last`. A
search that finds an empty match there starts again a character further on. No position is
searched from more than twice, so `fuel` beyond that changes nothing. -/
def findFrom (e : Expr) (text : Array Char) :
    (fuel i : Nat) → (last : Option Nat) → List (Nat × Nat)
  | 0, _, _ => []
  | fuel + 1, i, last =>
    if text.size < i then []
    else
      match e.find? text (text.size - i) i with
      | none => []
      | some (start, stop) =>
        if start = stop ∧ last = some stop then findFrom e text fuel (i + 1) last
        else (start, stop) :: findFrom e text fuel stop (some stop)

/-- All matches in a text, by character positions. -/
def findIn (e : Expr) (text : Array Char) : List (Nat × Nat) :=
  e.findFrom text (2 * (text.size + 1)) 0 none

/-- What a search finds lies between its start and the end of the text. -/
private theorem find?_within {e : Expr} {text : Array Char} :
    ∀ (fuel : Nat) {i a b : Nat}, i + fuel ≤ text.size →
      e.find? text fuel i = some (a, b) → i ≤ a ∧ a ≤ b ∧ b ≤ text.size := by
  intro fuel
  induction fuel with
  | zero =>
    intro i a b hi h
    rw [find?, Option.map_eq_some_iff] at h
    obtain ⟨j, hj, hab⟩ := h
    cases hab
    have hends := ends_within e (by omega) (List.mem_of_head? hj)
    exact ⟨Nat.le_refl _, hends⟩
  | succ fuel ih =>
    intro i a b hi h
    rw [find?] at h
    split at h
    next j hj =>
      cases h
      have hends := ends_within e (by omega) (List.mem_of_head? hj)
      exact ⟨Nat.le_refl _, hends⟩
    next =>
      have hlater := ih (by omega) h
      exact ⟨by omega, hlater.2⟩

/-- Matches from a position on lie behind it, one behind the other. -/
theorem findFrom_spec (e : Expr) (text : Array Char) :
    ∀ (fuel i : Nat) (last : Option Nat),
      (∀ m ∈ e.findFrom text fuel i last, i ≤ m.1 ∧ m.1 ≤ m.2 ∧ m.2 ≤ text.size)
        ∧ (e.findFrom text fuel i last).Pairwise fun m n => m.2 ≤ n.1 := by
  intro fuel
  induction fuel with
  | zero =>
    intro i last
    exact ⟨fun m hm => absurd hm List.not_mem_nil, .nil⟩
  | succ fuel ih =>
    intro i last
    rw [findFrom]
    split
    next => exact ⟨fun m hm => absurd hm List.not_mem_nil, .nil⟩
    next hi =>
      split
      next => exact ⟨fun m hm => absurd hm List.not_mem_nil, .nil⟩
      next start stop hfind =>
        have hin := find?_within _ (by omega) hfind
        split
        next =>
          -- The empty match is passed over, and the search goes on behind it.
          obtain ⟨hall, hordered⟩ := ih (i + 1) last
          refine ⟨fun m hm => ?_, hordered⟩
          have hm := hall m hm
          exact ⟨by omega, hm.2⟩
        next =>
          obtain ⟨hall, hordered⟩ := ih stop (some stop)
          refine ⟨fun m hm => ?_, List.pairwise_cons.mpr ⟨fun m hm => (hall m hm).1, hordered⟩⟩
          rcases List.mem_cons.mp hm with rfl | hm
          · exact hin
          · have hm := hall m hm
            exact ⟨by omega, hm.2⟩

/-! ## Searching by bytes -/

/-- All matches in a text, by byte offsets. -/
def findAll (e : Expr) (text : String) : List (Nat × Nat) :=
  let offsets := (Text.byteOffsets 0 text.toList).toArray
  (e.findIn text.toList.toArray).map fun (i, j) => (offsets.getD i 0, offsets.getD j 0)

/-- The byte offsets of a match are the lengths of what is in front of its ends. -/
theorem findAll_eq (e : Expr) (text : String) :
    e.findAll text = (e.findIn text.toList.toArray).map fun m =>
      (Text.byteLength (text.toList.take m.1), Text.byteLength (text.toList.take m.2)) := by
  refine List.map_congr_left fun m hm => ?_
  obtain ⟨-, hle, hsize⟩ := (findFrom_spec _ _ _ _ _).1 m hm
  rw [List.size_toArray] at hsize
  show ((Text.byteOffsets 0 text.toList).toArray.getD m.1 0,
    (Text.byteOffsets 0 text.toList).toArray.getD m.2 0) = _
  rw [Text.byteOffsets_getD (by omega), Text.byteOffsets_getD hsize]

/-- **What a search finds is in order.** -/
theorem findAll_inOrder (e : Expr) (text : String) : InOrder text (e.findAll text) := by
  obtain ⟨hall, hordered⟩ :=
    findFrom_spec e text.toList.toArray (2 * (text.toList.toArray.size + 1)) 0 none
  simp only [List.size_toArray] at hall
  rw [findAll_eq]
  refine ⟨?_, ?_, ?_⟩
  · intro r hr
    obtain ⟨m, hm, rfl⟩ := List.mem_map.mp hr
    exact Text.byteLength_take_mono (hall m hm).2.1 (hall m hm).2.2
  · intro r hr
    obtain ⟨m, hm, rfl⟩ := List.mem_map.mp hr
    obtain ⟨-, hle, hsize⟩ := hall m hm
    exact ⟨⟨m.1, Nat.le_trans hle hsize, rfl⟩, ⟨m.2, hsize, rfl⟩⟩
  · refine List.pairwise_map.mpr (List.Pairwise.imp_of_mem ?_ hordered)
    intro m n _ hn hmn
    exact Text.byteLength_take_mono hmn (Nat.le_trans (hall n hn).2.1 (hall n hn).2.2)

/-- An expression can be searched for. -/
def toRegex (e : Expr) (source : String) : Regex where
  source
  findAll := e.findAll
  inOrder := e.findAll_inOrder

end Expr

/-- Read what is to be searched for. -/
def Regex.compile (source : String) : Except SyntaxFault Regex :=
  (Expr.parse source).map fun e => e.toRegex source

end Classdesk.Pattern
