import Classdesk.Highlight.Span
import Mathlib.Data.String.Basic

/-!
# Matches as ranges of bytes

`found` lists the non-empty matches of a pattern set with their labels, whatever way its
patterns are searched for. `found_spec` says where they lie: inside the text, between two of
its characters.

The text of a span is cut out by `slice`. Slices that follow each other add up
(`slice_append`), wherever the cuts are made.
-/

namespace Classdesk

namespace Text

/-- The size of a text is the bytes of its characters together. -/
theorem utf8ByteSize_eq_byteLength (text : String) :
    text.utf8ByteSize = byteLength text.toList := by
  have hlen : ∀ cs : List Char, String.utf8Len cs = byteLength cs := by
    intro cs
    induction cs with
    | nil => rfl
    | cons c cs ih => rw [String.utf8Len_cons, ih, byteLength_cons, Nat.add_comm]
  conv_lhs => rw [← String.ofList_toList (s := text)]
  rw [String.utf8ByteSize_ofList, hlen]

/-- The front up to a boundary takes all bytes up to there. -/
theorem byteLength_frontWithin {cs : List Char} {x : Nat} (h : IsBoundary cs x) :
    byteLength (frontWithin x cs) = x := by
  obtain ⟨i, hi, rfl⟩ := h
  induction cs generalizing i with
  | nil => simp [frontWithin]
  | cons c cs ih =>
    cases i with
    | zero =>
      have hc := c.utf8Size_pos
      rw [List.take_zero, byteLength_nil, frontWithin, if_neg (by omega)]
      rfl
    | succ i =>
      rw [List.take_succ_cons, byteLength_cons, frontWithin, if_pos (Nat.le_add_right _ _),
        Nat.add_sub_cancel_left, byteLength_cons, ih i (by simpa using hi)]

/-- More bytes hold more characters. -/
theorem frontWithin_isPrefix {a b : Nat} (h : a ≤ b) (cs : List Char) :
    (frontWithin a cs).IsPrefix (frontWithin b cs) := by
  induction cs generalizing a b with
  | nil => exact List.prefix_rfl
  | cons c cs ih =>
    by_cases ha : c.utf8Size ≤ a
    · rw [frontWithin, frontWithin, if_pos ha, if_pos (by omega)]
      exact List.cons_prefix_cons.mpr ⟨rfl, ih (by omega)⟩
    · rw [frontWithin, if_neg ha]
      exact List.nil_prefix

theorem frontWithin_zero (cs : List Char) : frontWithin 0 cs = [] := by
  cases cs with
  | nil => rfl
  | cons c cs =>
    have hc := c.utf8Size_pos
    rw [frontWithin, if_neg (by omega)]

private theorem frontWithin_byteLength (cs : List Char) : frontWithin (byteLength cs) cs = cs := by
  induction cs with
  | nil => rfl
  | cons c cs ih =>
    rw [byteLength_cons, frontWithin, if_pos (Nat.le_add_right _ _), Nat.add_sub_cancel_left, ih]

end Text

namespace Highlight

open Text

/-- The part of a text between two byte offsets. -/
def slice (cs : List Char) (a b : Nat) : List Char :=
  (frontWithin b cs).drop (frontWithin a cs).length

/-- Slices that follow each other are a slice. -/
theorem slice_append {a b c : Nat} (hab : a ≤ b) (hbc : b ≤ c) (cs : List Char) :
    slice cs a b ++ slice cs b c = slice cs a c := by
  obtain ⟨x, hx⟩ := frontWithin_isPrefix hab cs
  obtain ⟨y, hy⟩ := frontWithin_isPrefix hbc cs
  rw [slice, slice, slice, ← hy, ← hx, List.append_assoc, List.drop_left, List.drop_left,
    ← List.append_assoc, List.drop_left]

/-- A slice between characters holds all the bytes between its ends. -/
theorem byteLength_slice {cs : List Char} {a b : Nat} (hab : a ≤ b) (ha : IsBoundary cs a)
    (hb : IsBoundary cs b) : byteLength (slice cs a b) = b - a := by
  have hfront := byteLength_frontWithin ha
  have hback := byteLength_frontWithin hb
  obtain ⟨x, hx⟩ := frontWithin_isPrefix hab cs
  rw [← hx, byteLength_append, hfront] at hback
  rw [slice, ← hx, List.drop_left]
  omega

theorem slice_self (cs : List Char) (a : Nat) : slice cs a a = [] := List.drop_length

/-- The slice from end to end is the text. -/
theorem slice_all (cs : List Char) : slice cs 0 (byteLength cs) = cs := by
  rw [slice, frontWithin_zero, frontWithin_byteLength]
  rfl

/-! ## Matches -/

/-- A match that takes some of the text: its label, and where it starts and stops. -/
structure Match where
  label : String
  start : Nat
  stop : Nat

/-- A match takes some of the text, from one character to another. -/
structure Match.Inside (text : String) (m : Match) : Prop where
  lt : m.start < m.stop
  stop_le : m.stop ≤ text.utf8ByteSize
  start_boundary : IsBoundary text.toList m.start
  stop_boundary : IsBoundary text.toList m.stop

/-- The non-empty matches of a pattern in a text, by byte offsets. -/
def Pattern.rangesIn (p : Pattern) (text : String) : List (Nat × Nat) :=
  (p.regex.findAll text).filter fun r => r.1 < r.2

/-- The non-empty matches of all patterns. -/
def found (patterns : PatternSet) (text : String) : List Match :=
  patterns.flatMap fun p => (p.rangesIn text).map fun r => ⟨p.label, r.1, r.2⟩

/-- What was found and covers some text. -/
theorem mem_found {patterns : PatternSet} {text : String} {m : Match} :
    m ∈ found patterns text ↔ ∃ p ∈ patterns, m.label = p.label
      ∧ (m.start, m.stop) ∈ p.regex.findAll text ∧ m.start ≠ m.stop := by
  unfold found
  rw [List.mem_flatMap]
  refine exists_congr fun p => and_congr_right fun _ => ?_
  rw [List.mem_map]
  constructor
  · rintro ⟨r, hr, rfl⟩
    obtain ⟨hfind, hlt⟩ := List.mem_filter.mp hr
    exact ⟨rfl, hfind, Nat.ne_of_lt (of_decide_eq_true hlt)⟩
  · rintro ⟨hlabel, hfind, hne⟩
    have hlt := Nat.lt_of_le_of_ne ((p.regex.inOrder text).le _ hfind) hne
    refine ⟨_, List.mem_filter.mpr ⟨hfind, decide_eq_true hlt⟩, ?_⟩
    rw [← hlabel]

/-- **Matches lie inside the text**, between its characters. -/
theorem found_spec {patterns : PatternSet} {text : String} {m : Match}
    (h : m ∈ found patterns text) : m.Inside text := by
  obtain ⟨p, -, hm⟩ := List.mem_flatMap.mp h
  obtain ⟨r, hr, rfl⟩ := List.mem_map.mp hm
  obtain ⟨hfind, hlt⟩ := List.mem_filter.mp hr
  obtain ⟨hstart, hstop⟩ := (p.regex.inOrder text).boundaries r hfind
  refine ⟨of_decide_eq_true hlt, ?_, hstart, hstop⟩
  rw [utf8ByteSize_eq_byteLength]
  exact hstop.le

end Highlight

end Classdesk
