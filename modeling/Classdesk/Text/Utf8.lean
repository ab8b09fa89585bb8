import Classdesk.Bytes

/-!
# UTF-8

Text files hold UTF-8. `decode?` reads a text only if every byte belongs to a well
formed character, so it undoes `encode` and nothing else:

> `decode?_eq_some_iff`: `decode? bs = some s ↔ encode s = bs`

`decodeLossy` always gives a text. Bytes that belong to no character turn into
U+FFFD: one for each longest run of bytes that could have started a character, and
one for each other byte.
-/

namespace Classdesk.Text.Utf8

/-- The bytes of a text. -/
def encode (s : String) : Bytes := s.toByteArray.data.toList

/-- The text that some bytes hold, if they are well formed. -/
def decode? (bs : Bytes) : Option String := String.fromUTF8? ⟨bs.toArray⟩

/-- Decoding is exactly the inverse of encoding. -/
theorem decode?_eq_some_iff {bs : Bytes} {s : String} :
    decode? bs = some s ↔ encode s = bs := by
  constructor
  · intro h
    simp only [decode?, String.fromUTF8?, Option.dite_none_right_eq_some, Option.some.injEq] at h
    obtain ⟨_, rfl⟩ := h
    rfl
  · rintro rfl
    simp only [decode?, String.fromUTF8?, encode, Array.toArray_toList]
    exact dif_pos s.isValidUTF8

/-! ## Reading with replacement -/

/-- What stands for bytes that belong to no character. -/
def replacement : Char := Char.ofNat 0xFFFD

/-- A character whose first bytes were read: its value so far, and the ranges that
its other bytes lie in. -/
structure Partial where
  value : Nat
  expected : List (Nat × Nat)

/-- The ranges of bytes that continue a character. -/
def continuation : Nat × Nat := (0x80, 0xBF)

/-- The bytes that may follow a first byte other than an ASCII character. The second
byte is limited where the character could be written shorter, would be a surrogate
or would lie beyond the last code point. -/
def ofFirst? (b : Nat) : Option Partial :=
  if b < 0xC2 then none
  else if b < 0xE0 then some ⟨b % 32, [continuation]⟩
  else if b < 0xF0 then
    let second :=
      if b = 0xE0 then (0xA0, 0xBF) else if b = 0xED then (0x80, 0x9F) else continuation
    some ⟨b % 16, [second, continuation]⟩
  else if b < 0xF5 then
    let second :=
      if b = 0xF0 then (0x90, 0xBF) else if b = 0xF4 then (0x80, 0x8F) else continuation
    some ⟨b % 8, [second, continuation, continuation]⟩
  else none

/-- Start a character with a byte: the characters read, and what is left open. -/
def first (b : Nat) : List Char × Option Partial :=
  if b < 0x80 then ([Char.ofNat b], none)
  else
    match ofFirst? b with
    | some p => ([], some p)
    | none => ([replacement], none)

/-- Go on with a byte. -/
def next : Option Partial → Nat → List Char × Option Partial
  | some ⟨value, (low, high) :: expected⟩, b =>
    if low ≤ b && b ≤ high then
      let value := value * 64 + b % 64
      if expected.isEmpty then ([Char.ofNat value], none) else ([], some ⟨value, expected⟩)
    else
      let (chars, p) := first b
      (replacement :: chars, p)
  | _, b => first b

/-- The characters of some bytes behind an open character. -/
def lossyChars : Option Partial → Bytes → List Char
  | none, [] => []
  | some _, [] => [replacement]
  | p, b :: bs =>
    let (chars, p) := next p b.toNat
    chars ++ lossyChars p bs

/-- The text of some bytes, with replacements. -/
def decodeLossy (bs : Bytes) : String := String.ofList (lossyChars none bs)

end Classdesk.Text.Utf8
