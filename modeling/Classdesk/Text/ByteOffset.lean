/-!
# Byte offsets

Positions in a text count the bytes of its UTF-8 form. An offset inside a character
stands for the end of the character before it.
-/

namespace Classdesk.Text

/-- The number of bytes of some characters. -/
def byteLength : List Char → Nat
  | [] => 0
  | c :: cs => c.utf8Size + byteLength cs

@[simp] theorem byteLength_nil : byteLength [] = 0 := rfl

@[simp] theorem byteLength_cons (c : Char) (cs : List Char) :
    byteLength (c :: cs) = c.utf8Size + byteLength cs := rfl

@[simp] theorem byteLength_append (cs ds : List Char) :
    byteLength (cs ++ ds) = byteLength cs + byteLength ds := by
  induction cs with
  | nil => simp
  | cons c cs ih => simp [ih, Nat.add_assoc]

/-- More characters take more bytes. -/
theorem byteLength_take_lt {cs : List Char} {i j : Nat} (hij : i < j) (hj : j ≤ cs.length) :
    byteLength (cs.take i) < byteLength (cs.take j) := by
  induction cs generalizing i j with
  | nil =>
    simp at hj
    omega
  | cons c cs ih =>
    obtain ⟨k, rfl⟩ : ∃ k, j = k + 1 := ⟨j - 1, by omega⟩
    have hc := c.utf8Size_pos
    cases i with
    | zero =>
      simp only [List.take_zero, byteLength_nil, List.take_succ_cons, byteLength_cons]
      omega
    | succ i =>
      have hrest := ih (i := i) (j := k) (by omega) (by simp at hj; omega)
      simp only [List.take_succ_cons, byteLength_cons]
      omega

/-- As many characters or more take as many bytes or more. -/
theorem byteLength_take_mono {cs : List Char} {i j : Nat} (hij : i ≤ j) (hj : j ≤ cs.length) :
    byteLength (cs.take i) ≤ byteLength (cs.take j) := by
  rcases Nat.lt_or_eq_of_le hij with hlt | rfl
  · exact Nat.le_of_lt (byteLength_take_lt hlt hj)
  · exact Nat.le_refl _

/-- The offset is between two characters of the text, or at one of its ends. -/
def IsBoundary (cs : List Char) (x : Nat) : Prop :=
  ∃ i ≤ cs.length, byteLength (cs.take i) = x

/-- Boundaries lie inside the text. -/
theorem IsBoundary.le {cs : List Char} {x : Nat} (h : IsBoundary cs x) : x ≤ byteLength cs := by
  obtain ⟨i, hi, rfl⟩ := h
  have hle := byteLength_take_mono hi (Nat.le_refl _)
  rwa [List.take_length] at hle

/-- The byte offsets of the characters of a text, and of its end. -/
def byteOffsets : (start : Nat) → List Char → List Nat
  | start, [] => [start]
  | start, c :: cs => start :: byteOffsets (start + c.utf8Size) cs

/-- Where the characters of a text start. -/
theorem byteOffsets_getElem? {cs : List Char} {i : Nat} (hi : i ≤ cs.length) (start : Nat) :
    (byteOffsets start cs)[i]? = some (start + byteLength (cs.take i)) := by
  induction cs generalizing i start with
  | nil =>
    obtain rfl : i = 0 := by simpa using hi
    rfl
  | cons c cs ih =>
    cases i with
    | zero => rfl
    | succ i =>
      rw [byteOffsets, List.getElem?_cons_succ, ih (by simpa using hi), List.take_succ_cons,
        byteLength_cons, Nat.add_assoc]

/-- The offset that stands for a character position is the length of what is in front. -/
theorem byteOffsets_getD {cs : List Char} {i : Nat} (hi : i ≤ cs.length) :
    (byteOffsets 0 cs).toArray.getD i 0 = byteLength (cs.take i) := by
  rw [Array.getD_eq_getD_getElem?, List.getElem?_toArray, byteOffsets_getElem? hi,
    Option.getD_some, Nat.zero_add]

/-- The characters of a text that lie within its first `bytes` bytes. -/
def frontWithin : (bytes : Nat) → List Char → List Char
  | _, [] => []
  | bytes, c :: cs =>
    if c.utf8Size ≤ bytes then c :: frontWithin (bytes - c.utf8Size) cs else []

/-- The front of a text is where it starts. -/
theorem frontWithin_append_drop (bytes : Nat) (cs : List Char) :
    frontWithin bytes cs ++ cs.drop (frontWithin bytes cs).length = cs := by
  induction cs generalizing bytes with
  | nil => rfl
  | cons c cs ih =>
    rw [frontWithin]
    split
    · simp [ih]
    · simp

end Classdesk.Text
