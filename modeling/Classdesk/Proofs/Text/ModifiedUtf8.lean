import Classdesk.Proofs.Text.UnitForm

/-!
# Modified UTF-8 is read back

`decode_encode`: a text that was written in modified UTF-8 is read back unchanged. The
two layers are undone one after the other: every code unit is one group of bytes
(`unitValues_flatMap`), and the units of a character give that character again
(`ofUtf16_flatMap`). A character is never a surrogate by itself, so units do not join
across characters.
-/

namespace Classdesk.Text

/-! ## Units of characters -/

/-- No character has the number of a surrogate. -/
theorem char_not_surrogate (c : Char) : c.toNat < 0xD800 ∨ 0xE000 ≤ c.toNat := by
  rcases c.valid with h | h
  · exact .inl h
  · exact .inr (by have := h.1; show 0xE000 ≤ c.val.toNat; omega)

private theorem utf16Units_lt (c : Char) : ∀ u ∈ utf16Units c, u < 0x10000 := by
  intro u hu
  have hc := char_lt c
  unfold utf16Units at hu
  split at hu
  next hlow =>
    rw [List.mem_singleton.mp hu]
    exact hlow
  next hhigh =>
    simp only [List.mem_cons, List.not_mem_nil, or_false] at hu
    omega

/-- A character of one unit is read back from it, whatever follows. -/
theorem ofUtf16_cons {u : Nat} (h : u < 0xD800 ∨ 0xE000 ≤ u) (units : List Nat) :
    ofUtf16 (u :: units) = Char.ofNat u :: ofUtf16 units := by
  have hhigh : isHighSurrogate u = false := by
    simp only [isHighSurrogate, Bool.and_eq_false_iff, decide_eq_false_iff_not]
    omega
  have hlow : isLowSurrogate u = false := by
    simp only [isLowSurrogate, Bool.and_eq_false_iff, decide_eq_false_iff_not]
    omega
  cases units with
  | nil => simp [ofUtf16, hhigh, hlow]
  | cons v rest => simp [ofUtf16, hhigh, hlow]

private theorem ofUtf16_append (c : Char) (units : List Nat) :
    ofUtf16 (utf16Units c ++ units) = c :: ofUtf16 units := by
  have hc := char_lt c
  unfold utf16Units
  split
  next hlow =>
    rw [List.singleton_append, ofUtf16_cons (char_not_surrogate c), Char.ofNat_toNat]
  next hhigh =>
    -- Both halves are surrogates, and their twenty bits put the character together.
    have hfirst : isHighSurrogate (0xD800 + (c.toNat - 0x10000) / 0x400) = true := by
      simp only [isHighSurrogate, Bool.and_eq_true, decide_eq_true_eq]
      omega
    have hsecond : isLowSurrogate (0xDC00 + (c.toNat - 0x10000) % 0x400) = true := by
      simp only [isLowSurrogate, Bool.and_eq_true, decide_eq_true_eq]
      omega
    have hpair : pairChar (0xD800 + (c.toNat - 0x10000) / 0x400)
        (0xDC00 + (c.toNat - 0x10000) % 0x400) = c := by
      rw [pairChar, show 0x10000 + (0xD800 + (c.toNat - 0x10000) / 0x400 - 0xD800) * 0x400
          + (0xDC00 + (c.toNat - 0x10000) % 0x400 - 0xDC00) = c.toNat from by omega,
        Char.ofNat_toNat]
    simp only [List.cons_append, List.nil_append, ofUtf16, hfirst, hsecond, if_true, hpair]

/-- Characters are read back from their units. -/
theorem ofUtf16_flatMap (cs : List Char) : ofUtf16 (cs.flatMap utf16Units) = cs := by
  induction cs with
  | nil => rfl
  | cons c cs ih => rw [List.flatMap_cons, ofUtf16_append, ih]

namespace ModifiedUtf8

/-! ## Groups of units -/

private theorem toNat_ofNat_of_lt {n : Nat} (h : n < 256) : (UInt8.ofNat n).toNat = n := by
  rw [UInt8.toNat_ofNat', Nat.mod_eq_of_lt h]

/-- A continuation with six bits of its own. -/
theorem isContinuation_ofNat {n : Nat} (h : n < 0x40) :
    IsContinuation (UInt8.ofNat (0x80 + n)) := by
  rw [IsContinuation, toNat_ofNat_of_lt (by omega)]
  omega

/-- A range of bytes as a range of numbers. -/
theorem between_iff {low high a : UInt8} :
    (low ≤ a && a ≤ high) = true ↔ low.toNat ≤ a.toNat ∧ a.toNat ≤ high.toNat := by
  simp only [Bool.and_eq_true, decide_eq_true_eq, UInt8.le_iff_toNat_le]

theorem unitValues_one {a : UInt8} (h : 0x01 ≤ a.toNat ∧ a.toNat ≤ 0x7F) (rest : Bytes) :
    unitValues (a :: rest) = (unitValues rest).map (a.toNat :: ·) := by
  have hone : (0x01 ≤ a && a ≤ 0x7F) = true := between_iff.mpr h
  rw [unitValues, unitValues, decodeUnits.eq_def]
  simp only [hone, if_true]
  cases decodeUnits rest with
  | none => rfl
  | some units => simp

theorem unitValues_two {a b : UInt8} (h : 0xC0 ≤ a.toNat ∧ a.toNat ≤ 0xDF)
    (hb : IsContinuation b) (rest : Bytes) :
    unitValues (a :: b :: rest)
      = (unitValues rest).map (((a.toNat - 0xC0) * 0x40 + (b.toNat - 0x80)) :: ·) := by
  have hone : ¬ (0x01 ≤ a && a ≤ 0x7F) = true := by
    rw [between_iff]
    show ¬ (1 ≤ a.toNat ∧ a.toNat ≤ 0x7F)
    omega
  have htwo : (0xC0 ≤ a && a ≤ 0xDF) = true := between_iff.mpr h
  obtain ⟨low, hread, hlow⟩ := exists_continuation hb
  have hunit := toNat_unitOfTwo h (hlow ▸ hb.sub_lt)
  rw [unitValues, unitValues, decodeUnits, if_neg hone, if_pos htwo, hread]
  cases decodeUnits rest with
  | none => rfl
  | some units => simp [hunit, hlow]

theorem unitValues_three {a b c : UInt8} (h : 0xE0 ≤ a.toNat ∧ a.toNat ≤ 0xEF)
    (hb : IsContinuation b) (hc : IsContinuation c) (rest : Bytes) :
    unitValues (a :: b :: c :: rest)
      = (unitValues rest).map
        (((a.toNat - 0xE0) * 0x1000 + (b.toNat - 0x80) * 0x40 + (c.toNat - 0x80)) :: ·) := by
  have hone : ¬ (0x01 ≤ a && a ≤ 0x7F) = true := by
    rw [between_iff]
    show ¬ (1 ≤ a.toNat ∧ a.toNat ≤ 0x7F)
    omega
  have htwo : ¬ (0xC0 ≤ a && a ≤ 0xDF) = true := by
    rw [between_iff]
    show ¬ (0xC0 ≤ a.toNat ∧ a.toNat ≤ 0xDF)
    omega
  have hthree : (0xE0 ≤ a && a ≤ 0xEF) = true := between_iff.mpr h
  obtain ⟨mid, hreadMid, hmid⟩ := exists_continuation hb
  obtain ⟨low, hreadLow, hlow⟩ := exists_continuation hc
  have hunit := toNat_unitOfThree h (hmid ▸ hb.sub_lt) (hlow ▸ hc.sub_lt)
  rw [unitValues, unitValues, decodeUnits, if_neg hone, if_neg htwo, if_pos hthree]
  simp only [hreadMid, hreadLow]
  cases decodeUnits rest with
  | none => rfl
  | some units => simp [hunit, hmid, hlow]

/-- The group of a unit is read back as that unit, whatever follows. -/
theorem unitValues_append {u : Nat} (hu : u < 0x10000) (rest : Bytes) :
    unitValues (encodeUnit u ++ rest) = (unitValues rest).map (u :: ·) := by
  unfold encodeUnit
  by_cases hzero : u = 0
  · -- Zero is the one unit that takes more bytes than it needs.
    rw [if_pos hzero, hzero]
    exact unitValues_two (a := 0xC0) (b := 0x80) (by decide) (by decide) rest
  · rw [if_neg hzero]
    by_cases hone : u < 0x80
    · have ha : (UInt8.ofNat u).toNat = u := toNat_ofNat_of_lt (by omega)
      rw [if_pos hone, List.singleton_append, unitValues_one (by omega), ha]
    · rw [if_neg hone]
      have hlast : (UInt8.ofNat (0x80 + u % 0x40)).toNat = 0x80 + u % 0x40 :=
        toNat_ofNat_of_lt (by omega)
      by_cases htwo : u < 0x800
      · have ha : (UInt8.ofNat (0xC0 + u / 0x40)).toNat = 0xC0 + u / 0x40 :=
          toNat_ofNat_of_lt (by omega)
        rw [if_pos htwo, List.cons_append, List.singleton_append,
          unitValues_two (by omega) (isContinuation_ofNat (by omega)), ha, hlast,
          show (0xC0 + u / 0x40 - 0xC0) * 0x40 + (0x80 + u % 0x40 - 0x80) = u from by omega]
      · have ha : (UInt8.ofNat (0xE0 + u / 0x1000)).toNat = 0xE0 + u / 0x1000 :=
          toNat_ofNat_of_lt (by omega)
        have hmid : (UInt8.ofNat (0x80 + u / 0x40 % 0x40)).toNat = 0x80 + u / 0x40 % 0x40 :=
          toNat_ofNat_of_lt (by omega)
        rw [if_neg htwo, List.cons_append, List.cons_append, List.singleton_append,
          unitValues_three (by omega) (isContinuation_ofNat (by omega))
            (isContinuation_ofNat (by omega)), ha, hmid, hlast,
          show (0xE0 + u / 0x1000 - 0xE0) * 0x1000 + (0x80 + u / 0x40 % 0x40 - 0x80) * 0x40
            + (0x80 + u % 0x40 - 0x80) = u from by omega]

/-- Units are read back from their bytes. -/
theorem unitValues_flatMap {units : List Nat} (h : ∀ u ∈ units, u < 0x10000) :
    unitValues (units.flatMap encodeUnit) = some units := by
  induction units with
  | nil => rfl
  | cons u units ih =>
    rw [List.flatMap_cons, unitValues_append (h u (List.mem_cons_self ..)),
      ih fun v hv => h v (List.mem_cons_of_mem _ hv)]
    rfl

/-- **A text that was written is read back.** -/
theorem decode_encode (cs : List Char) : decode (encode cs) = some cs := by
  have hunits : ∀ u ∈ cs.flatMap utf16Units, u < 0x10000 := by
    intro u hu
    obtain ⟨c, -, hc⟩ := List.mem_flatMap.mp hu
    exact utf16Units_lt c u hc
  rw [decode_eq_values, encode_eq_units, unitValues_flatMap hunits, Option.map_some,
    ofUtf16_flatMap]

end ModifiedUtf8

end Classdesk.Text
