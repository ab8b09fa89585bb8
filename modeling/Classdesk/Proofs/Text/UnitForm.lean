import Classdesk.Text.ModifiedUtf8
import Mathlib.Algebra.Group.Nat.Even

/-!
# Modified UTF-8 by code units

The encoder takes characters apart with shifts and masks, and the decoder puts units
together the same way. Seen from outside there is only one rule: a text is a row of UTF-16
units, and each unit is written as the shortest group that holds it, zero as `C0 80`. This
file says that the two are the same:

> `encode_eq_units`: a text is written unit by unit.
> `unitValues`: the units that are read, as numbers.

The one place with something to show is a character outside the basic plane. Its four bits
in front are those of its plane less one, which the encoder takes from the plane modulo
sixteen; plane 16 is where the subtraction wraps around (`planeByte_eq`).
-/

namespace Classdesk.Text

/-- The UTF-16 code units of a character. -/
def utf16Units (c : Char) : List Nat :=
  if c.toNat < 0x10000 then [c.toNat]
  else
    let m := c.toNat - 0x10000
    [0xD800 + m / 0x400, 0xDC00 + m % 0x400]

theorem char_lt (c : Char) : c.toNat < 0x110000 := by
  rcases c.valid with h | h
  · have : c.toNat < 0xD800 := h
    omega
  · exact h.2

namespace ModifiedUtf8

/-- The shortest group for a unit, zero as `C0 80`. -/
def encodeUnit (u : Nat) : Bytes :=
  if u = 0 then [0xC0, 0x80]
  else if u < 0x80 then [UInt8.ofNat u]
  else if u < 0x800 then [UInt8.ofNat (0xC0 + u / 0x40), UInt8.ofNat (0x80 + u % 0x40)]
  else [UInt8.ofNat (0xE0 + u / 0x1000), UInt8.ofNat (0x80 + u / 0x40 % 0x40),
    UInt8.ofNat (0x80 + u % 0x40)]

/-! ## Bits of a character -/

/-- The low bits of a word behind the marks of a byte that has none of them. -/
theorem toNat_marked (v mask : UInt32) (mark : UInt8) {k t : Nat} (hk : k ≤ 8)
    (hmask : mask.toNat = 2 ^ k - 1) (hmark : mark.toNat = 2 ^ k * t) :
    ((v &&& mask).toUInt8 ||| mark).toNat = mark.toNat + v.toNat % 2 ^ k := by
  have hlt : v.toNat % 2 ^ k < 2 ^ k := Nat.mod_lt _ (Nat.two_pow_pos k)
  have hbyte : 2 ^ k ≤ 2 ^ 8 := Nat.pow_le_pow_right (by decide) hk
  rw [UInt8.toNat_or, UInt32.toNat_toUInt8, UInt32.toNat_and, hmask,
    Nat.and_two_pow_sub_one_eq_mod, Nat.mod_eq_of_lt (Nat.lt_of_lt_of_le hlt hbyte), hmark,
    Nat.or_comm, ← Nat.two_pow_add_eq_or_of_lt hlt]

theorem toNat_shifted {code shift : UInt32} (h : shift.toNat < 32) :
    (code >>> shift).toNat = code.toNat / 2 ^ shift.toNat := by
  rw [UInt32.toNat_shiftRight, Nat.mod_eq_of_lt h, Nat.shiftRight_eq_div_pow]

/-- A byte from its value. -/
theorem eq_ofNat_of_toNat {a : UInt8} {n : Nat} (h : a.toNat = n) : a = UInt8.ofNat n := by
  rw [← h, UInt8.ofNat_toNat]

variable (code : UInt32)

/-- A continuation holds six bits. -/
theorem continuationByte_eq {n : Nat} (h : code.toNat % 0x40 = n) :
    (code &&& 0x3F).toUInt8 ||| 0x80 = UInt8.ofNat (0x80 + n) :=
  eq_ofNat_of_toNat (h ▸ toNat_marked code 0x3F 0x80 (k := 6) (t := 2) (by decide) rfl rfl)

/-- The first of two bytes holds five bits. -/
theorem firstOfTwo_eq {n : Nat} (h : code.toNat % 0x20 = n) :
    (code &&& 0x1F).toUInt8 ||| 0xC0 = UInt8.ofNat (0xC0 + n) :=
  eq_ofNat_of_toNat (h ▸ toNat_marked code 0x1F 0xC0 (k := 5) (t := 6) (by decide) rfl rfl)

/-- The first of three bytes holds four bits. -/
theorem firstOfThree_eq {n : Nat} (h : code.toNat % 0x10 = n) :
    (code &&& 0x0F).toUInt8 ||| 0xE0 = UInt8.ofNat (0xE0 + n) :=
  eq_ofNat_of_toNat (h ▸ toNat_marked code 0x0F 0xE0 (k := 4) (t := 14) (by decide) rfl rfl)

/-- The second byte of a low surrogate holds four bits. -/
theorem lowHalf_eq {n : Nat} (h : code.toNat % 0x10 = n) :
    (code &&& 0x0F).toUInt8 ||| 0xB0 = UInt8.ofNat (0xB0 + n) :=
  eq_ofNat_of_toNat (h ▸ toNat_marked code 0x0F 0xB0 (k := 4) (t := 11) (by decide) rfl rfl)

/-- The second byte of a high surrogate holds the plane less one; sixteen is zero modulo
sixteen, and one less than that is fifteen again. -/
theorem planeByte_eq {plane : Nat} (h : code.toNat = plane + 1) (hplane : plane < 16) :
    ((code &&& 0x0F).toUInt8 - 1) &&& 0x0F ||| 0xA0 = UInt8.ofNat (0xA0 + plane) := by
  have hbits : (code &&& 0x0F).toUInt8 = UInt8.ofNat ((plane + 1) % 16) := by
    apply eq_ofNat_of_toNat
    have hmarked := toNat_marked code 0x0F 0x00 (k := 4) (t := 0) (by decide) rfl rfl
    rwa [UInt8.or_zero, UInt8.toNat_zero, Nat.zero_add, h] at hmarked
  have hall : ∀ n < 16, (UInt8.ofNat ((n + 1) % 16) - 1) &&& 0x0F ||| 0xA0
      = UInt8.ofNat (0xA0 + n) := by
    decide
  rw [hbits, hall plane hplane]

/-! ## Characters -/

/-- How many bytes of UTF-8 a character takes, by its number. -/
theorem utf8Size_cases (c : Char) :
    c.utf8Size = 1 ∧ c.toNat < 0x80
      ∨ c.utf8Size = 2 ∧ 0x80 ≤ c.toNat ∧ c.toNat < 0x800
      ∨ c.utf8Size = 3 ∧ 0x800 ≤ c.toNat ∧ c.toNat < 0x10000
      ∨ c.utf8Size = 4 ∧ 0x10000 ≤ c.toNat := by
  rw [Char.utf8Size_eq_one_iff, Char.utf8Size_eq_two_iff, Char.utf8Size_eq_three_iff,
    Char.utf8Size_eq_four_iff]
  simp only [UInt32.le_iff_toNat_le, UInt32.lt_iff_toNat_lt]
  show c.toNat ≤ 0x7F ∧ _ ∨ (0x7F < c.toNat ∧ c.toNat ≤ 0x7FF) ∧ _
    ∨ (0x7FF < c.toNat ∧ c.toNat ≤ 0xFFFF) ∧ _ ∨ 0xFFFF < c.toNat ∧ _
  omega

private theorem encodeOne_eq {code : UInt32} (hpos : code.toNat ≠ 0) (hlt : code.toNat < 0x80) :
    ([code.toUInt8] : Bytes) = encodeUnit code.toNat := by
  have hbyte : code.toUInt8.toNat = code.toNat := by
    rw [UInt32.toNat_toUInt8]
    omega
  rw [encodeUnit, if_neg hpos, if_pos hlt, eq_ofNat_of_toNat hbyte]

private theorem encodeTwo_eq {code : UInt32} (hle : 0x80 ≤ code.toNat)
    (hlt : code.toNat < 0x800) :
    ([(code >>> 6 &&& 0x1F).toUInt8 ||| 0xC0, (code &&& 0x3F).toUInt8 ||| 0x80] : Bytes)
      = encodeUnit code.toNat := by
  have hfirst : (code >>> 6).toNat % 0x20 = code.toNat / 0x40 := by
    rw [toNat_shifted (by decide)]
    show code.toNat / 0x40 % 0x20 = _
    omega
  rw [encodeUnit, if_neg (by omega), if_neg (by omega), if_pos hlt, firstOfTwo_eq _ hfirst,
    continuationByte_eq _ rfl]

private theorem encodeThree_eq {code : UInt32} (hle : 0x800 ≤ code.toNat)
    (hlt : code.toNat < 0x10000) :
    ([(code >>> 12 &&& 0x0F).toUInt8 ||| 0xE0, (code >>> 6 &&& 0x3F).toUInt8 ||| 0x80,
        (code &&& 0x3F).toUInt8 ||| 0x80] : Bytes)
      = encodeUnit code.toNat := by
  have hfirst : (code >>> 12).toNat % 0x10 = code.toNat / 0x1000 := by
    rw [toNat_shifted (by decide)]
    show code.toNat / 0x1000 % 0x10 = _
    omega
  have hmiddle : (code >>> 6).toNat % 0x40 = code.toNat / 0x40 % 0x40 := by
    rw [toNat_shifted (by decide)]
    rfl
  rw [encodeUnit, if_neg (by omega), if_neg (by omega), if_neg (by omega),
    firstOfThree_eq _ hfirst, continuationByte_eq _ hmiddle, continuationByte_eq _ rfl]

/-- A character outside the basic plane is written as its two halves. -/
theorem encodePair_eq {code : UInt32} (hlow : 0x10000 ≤ code.toNat)
    (hhigh : code.toNat < 0x110000) :
    ([0xED, ((code >>> 16 &&& 0x0F).toUInt8 - 1) &&& 0x0F ||| 0xA0,
        (code >>> 10 &&& 0x3F).toUInt8 ||| 0x80,
        0xED, (code >>> 6 &&& 0x0F).toUInt8 ||| 0xB0, (code &&& 0x3F).toUInt8 ||| 0x80] : Bytes)
      = encodeUnit (0xD800 + (code.toNat - 0x10000) / 0x400)
        ++ encodeUnit (0xDC00 + (code.toNat - 0x10000) % 0x400) := by
  have hplane : (code >>> 16).toNat = (code.toNat - 0x10000) / 0x10000 + 1 := by
    rw [toNat_shifted (by decide)]
    show code.toNat / 0x10000 = _
    omega
  have hmiddle : (code >>> 10).toNat % 0x40 = (0xD800 + (code.toNat - 0x10000) / 0x400) % 0x40 := by
    rw [toNat_shifted (by decide)]
    show code.toNat / 0x400 % 0x40 = _
    omega
  have hhalf : (code >>> 6).toNat % 0x10 = (code.toNat - 0x10000) % 0x400 / 0x40 := by
    rw [toNat_shifted (by decide)]
    show code.toNat / 0x40 % 0x10 = _
    omega
  have hlast : code.toNat % 0x40 = (0xDC00 + (code.toNat - 0x10000) % 0x400) % 0x40 := by omega
  rw [planeByte_eq _ hplane (by omega), continuationByte_eq _ hmiddle, lowHalf_eq _ hhalf,
    continuationByte_eq _ hlast]
  unfold encodeUnit
  rw [if_neg (by omega), if_neg (by omega), if_neg (by omega), if_neg (by omega),
    if_neg (by omega), if_neg (by omega)]
  -- Both surrogates start with the same byte, and the second byte tells them apart.
  have hed : ∀ u, 0xD800 ≤ u → u < 0xE000 → UInt8.ofNat (0xE0 + u / 0x1000) = 0xED := by
    intro u hle hlt
    rw [show 0xE0 + u / 0x1000 = 0xED by omega]
    rfl
  rw [hed _ (by omega) (by omega), hed _ (by omega) (by omega)]
  show _ = [0xED, _, _, 0xED, _, _]
  rw [show 0x80 + (0xD800 + (code.toNat - 0x10000) / 0x400) / 0x40 % 0x40
      = 0xA0 + (code.toNat - 0x10000) / 0x10000 by omega,
    show 0x80 + (0xDC00 + (code.toNat - 0x10000) % 0x400) / 0x40 % 0x40
      = 0xB0 + (code.toNat - 0x10000) % 0x400 / 0x40 by omega]

/-- **A character is written unit by unit.** -/
theorem encodeChar_eq_units (c : Char) : encodeChar c = (utf16Units c).flatMap encodeUnit := by
  unfold encodeChar utf16Units
  by_cases hzero : c = '\x00'
  · rw [hzero]
    decide
  · have hpos : c.toNat ≠ 0 := by
      intro h
      apply hzero
      rw [← Char.ofNat_toNat c, h]
    rw [if_neg hzero]
    rcases utf8Size_cases c with ⟨hsize, hlt⟩ | ⟨hsize, hle, hlt⟩ | ⟨hsize, hle, hlt⟩ | ⟨hsize, hle⟩
    · rw [hsize, if_pos (by omega), List.flatMap_singleton]
      exact encodeOne_eq hpos hlt
    · rw [hsize, if_pos (by omega), List.flatMap_singleton]
      exact encodeTwo_eq hle hlt
    · rw [hsize, if_pos hlt, List.flatMap_singleton]
      exact encodeThree_eq hle hlt
    · rw [hsize, if_neg (by omega)]
      exact (encodePair_eq hle (char_lt c)).trans (by simp)

example : encodeChar (Char.ofNat 0x10FFFF) = [0xED, 0xAF, 0xBF, 0xED, 0xBF, 0xBF] := by decide

/-- **A text is written unit by unit.** -/
theorem encode_eq_units (cs : List Char) :
    encode cs = (cs.flatMap utf16Units).flatMap encodeUnit := by
  rw [encode, List.flatMap_assoc, funext encodeChar_eq_units]

/-! ## Units that are read -/

/-- The units of a byte string as numbers. -/
def unitValues (bs : Bytes) : Option (List Nat) := (decodeUnits bs).map (·.map UInt16.toNat)

/-- Decoding goes through the units. -/
theorem decode_eq_values (bs : Bytes) : decode bs = (unitValues bs).map ofUtf16 := by
  rw [decode, unitValues, Option.map_map]
  rfl

/-- A byte that can only continue a group. -/
def IsContinuation (b : UInt8) : Prop := 0x80 ≤ b.toNat ∧ b.toNat ≤ 0xBF

instance (b : UInt8) : Decidable (IsContinuation b) := inferInstanceAs (Decidable (_ ∧ _))

/-- A byte is a continuation by its two bits in front, and its other bits are what is left
of it. -/
theorem continuation_eq_some {b : UInt8} {low : UInt16} :
    continuation b = some low ↔ IsContinuation b ∧ low.toNat = b.toNat - 0x80 := by
  have hall : ∀ n < 256, n &&& 0xC0 = 0x80 ↔ 0x80 ≤ n ∧ n ≤ 0xBF := by decide +kernel
  have hmarked : b &&& 0xC0 = 0x80 ↔ IsContinuation b := by
    rw [IsContinuation, ← hall _ b.toNat_lt, ← UInt8.toNat_inj, UInt8.toNat_and]
    rfl
  have hlow : (b &&& 0x3F).toUInt16.toNat = b.toNat % 0x40 := by
    rw [UInt8.toNat_toUInt16, UInt8.toNat_and]
    exact Nat.and_two_pow_sub_one_eq_mod b.toNat 6
  unfold continuation
  by_cases hb : b &&& 0xC0 = 0x80
  · obtain ⟨hle, hlt⟩ := hmarked.mp hb
    rw [if_pos hb, Option.some.injEq, ← UInt16.toNat_inj, hlow]
    exact ⟨fun h => ⟨⟨hle, hlt⟩, by omega⟩, fun h => by omega⟩
  · rw [if_neg hb]
    simp only [reduceCtorEq, false_iff]
    exact fun h => hb (hmarked.mpr h.1)

/-- A continuation byte gives its six bits. -/
theorem exists_continuation {b : UInt8} (h : IsContinuation b) :
    ∃ low, continuation b = some low ∧ low.toNat = b.toNat - 0x80 := by
  obtain ⟨hle, hlt⟩ := h
  have hsmall : b.toNat - 0x80 < 2 ^ 16 := by omega
  have hlow : (UInt16.ofNat (b.toNat - 0x80)).toNat = b.toNat - 0x80 := by
    rw [UInt16.toNat_ofNat', Nat.mod_eq_of_lt hsmall]
  exact ⟨_, continuation_eq_some.mpr ⟨⟨hle, hlt⟩, hlow⟩, hlow⟩

theorem IsContinuation.sub_lt {b : UInt8} (h : IsContinuation b) : b.toNat - 0x80 < 0x40 := by
  obtain ⟨hle, hlt⟩ := h
  omega

/-- Bits that are shifted and filled up from below. -/
theorem shifted_or {high low k : Nat} (hlow : low < 2 ^ k) :
    high <<< k ||| low = high * 2 ^ k + low := by
  rw [Nat.shiftLeft_eq, Nat.mul_comm, Nat.two_pow_add_eq_or_of_lt hlow]

/-- The unit of a group of two bytes. -/
theorem toNat_unitOfTwo {a : UInt8} {low : UInt16} (ha : 0xC0 ≤ a.toNat ∧ a.toNat ≤ 0xDF)
    (hlow : low.toNat < 0x40) :
    ((a.toUInt16 &&& 0x1F) <<< 6 ||| low).toNat = (a.toNat - 0xC0) * 0x40 + low.toNat := by
  have hbits : (a.toUInt16 &&& 0x1F).toNat = a.toNat - 0xC0 := by
    rw [UInt16.toNat_and, UInt8.toNat_toUInt16]
    refine (Nat.and_two_pow_sub_one_eq_mod a.toNat 5).trans ?_
    omega
  rw [UInt16.toNat_or, UInt16.toNat_shiftLeft, hbits]
  show (a.toNat - 0xC0) <<< 6 % 2 ^ 16 ||| low.toNat = _
  rw [Nat.mod_eq_of_lt (by rw [Nat.shiftLeft_eq]; omega)]
  exact shifted_or hlow

/-- The unit of a group of three bytes. -/
theorem toNat_unitOfThree {a : UInt8} {mid low : UInt16}
    (ha : 0xE0 ≤ a.toNat ∧ a.toNat ≤ 0xEF) (hmid : mid.toNat < 0x40) (hlow : low.toNat < 0x40) :
    ((a.toUInt16 &&& 0x0F) <<< 12 ||| mid <<< 6 ||| low).toNat
      = (a.toNat - 0xE0) * 0x1000 + mid.toNat * 0x40 + low.toNat := by
  have hbits : (a.toUInt16 &&& 0x0F).toNat = a.toNat - 0xE0 := by
    rw [UInt16.toNat_and, UInt8.toNat_toUInt16]
    refine (Nat.and_two_pow_sub_one_eq_mod a.toNat 4).trans ?_
    omega
  have hshift : mid.toNat <<< 6 = mid.toNat * 0x40 := Nat.shiftLeft_eq _ 6
  rw [UInt16.toNat_or, UInt16.toNat_or, UInt16.toNat_shiftLeft, UInt16.toNat_shiftLeft, hbits]
  show (a.toNat - 0xE0) <<< 12 % 2 ^ 16 ||| mid.toNat <<< 6 % 2 ^ 16 ||| low.toNat = _
  rw [Nat.mod_eq_of_lt (by rw [Nat.shiftLeft_eq]; omega), Nat.mod_eq_of_lt (by omega),
    shifted_or (show mid.toNat <<< 6 < 2 ^ 12 by omega), hshift,
    show (a.toNat - 0xE0) * 2 ^ 12 + mid.toNat * 0x40
      = ((a.toNat - 0xE0) * 0x40 + mid.toNat) <<< 6 by rw [Nat.shiftLeft_eq]; omega,
    shifted_or hlow]
  omega

end ModifiedUtf8

end Classdesk.Text
