import Classdesk.Proofs.Text.ModifiedUtf8
import Mathlib.Data.List.Forall2

/-!
# The canonical form of a text

Decoding accepts more than encoding writes: groups may be longer than needed, and a
surrogate may stand alone. `Canonical` says that neither happens. The main result is

> `trims_decode`: encoding what was decoded gives no more bytes than there were, and
> gives the same bytes exactly if they are canonical.

Both halves are said at once by `Bytes.Trims`, which is kept when byte strings are put
behind each other, so that a text is compared group by group.
-/

namespace Classdesk

/-- The first byte string is no longer than the second one, and is equal to it exactly
if `p` holds. -/
structure Bytes.Trims (out original : Bytes) (p : Prop) : Prop where
  length_le : out.length ≤ original.length
  eq_iff : out = original ↔ p

namespace Bytes.Trims

variable {out out' original original' : Bytes} {p q : Prop}

theorem rfl {bs : Bytes} : Trims bs bs True := ⟨Nat.le_refl _, by simp⟩

theorem of_iff (h : Trims out original p) (hpq : p ↔ q) : Trims out original q :=
  ⟨h.length_le, h.eq_iff.trans hpq⟩

/-- Rows of bytes that are trimmed part by part are the same only if no part is shorter. -/
theorem append (h : Trims out original p) (h' : Trims out' original' q) :
    Trims (out ++ out') (original ++ original') (p ∧ q) := by
  have hle := h.length_le
  have hle' := h'.length_le
  refine ⟨by rw [List.length_append, List.length_append]; omega, ?_⟩
  constructor
  · intro heq
    have hlen := congrArg List.length heq
    rw [List.length_append, List.length_append] at hlen
    obtain ⟨hfirst, hsecond⟩ := List.append_inj heq (by omega)
    exact ⟨h.eq_iff.mp hfirst, h'.eq_iff.mp hsecond⟩
  · rintro ⟨hp, hq⟩
    rw [h.eq_iff.mpr hp, h'.eq_iff.mpr hq]

theorem prepend (bs : Bytes) (h : Trims out original p) : Trims (bs ++ out) (bs ++ original) p :=
  (rfl.append h).of_iff (and_iff_right trivial)

theorem postpend (h : Trims out original p) (bs : Bytes) : Trims (out ++ bs) (original ++ bs) p :=
  (h.append rfl).of_iff (and_iff_left trivial)

end Bytes.Trims

namespace Text

/-- Surrogates stand in pairs only, a high one in front of a low one. -/
inductive Paired : List Nat → Prop
  | nil : Paired []
  | plain {u : Nat} {units : List Nat} (hu : u < 0xD800 ∨ 0xE000 ≤ u) (hunits : Paired units) :
      Paired (u :: units)
  | pair {high low : Nat} {units : List Nat} (hhigh : 0xD800 ≤ high ∧ high < 0xDC00)
      (hlow : 0xDC00 ≤ low ∧ low < 0xE000) (hunits : Paired units) :
      Paired (high :: low :: units)

/-- A unit is kept, or it is a surrogate and is replaced. -/
def KeptOrReplaced (u v : Nat) : Prop := v = u ∨ (0xD800 ≤ u ∧ u < 0xE000) ∧ v = 0xFFFD

/-- Units and what they are after reading: none is replaced exactly if all surrogates
stand in pairs. -/
structure Mends (units after : List Nat) : Prop where
  each : List.Forall₂ KeptOrReplaced units after
  eq_iff : after = units ↔ Paired units

private theorem isHighSurrogate_iff {u : Nat} :
    isHighSurrogate u = true ↔ 0xD800 ≤ u ∧ u < 0xDC00 := by
  simp [isHighSurrogate]

private theorem isLowSurrogate_iff {u : Nat} :
    isLowSurrogate u = true ↔ 0xDC00 ≤ u ∧ u < 0xE000 := by
  simp [isLowSurrogate]

private theorem char_toNat_ofNat {n : Nat} (h : n.isValidChar) : (Char.ofNat n).toNat = n := by
  rw [Char.ofNat, dif_pos h]
  rfl

private theorem utf16Units_ofNat {u : Nat} (h : u < 0xD800 ∨ 0xE000 ≤ u) (hlt : u < 0x10000) :
    utf16Units (Char.ofNat u) = [u] := by
  have hvalid : u.isValidChar := by
    unfold Nat.isValidChar
    omega
  rw [utf16Units, char_toNat_ofNat hvalid, if_pos hlt]

/-- A pair of surrogates is taken apart as it was put together. -/
private theorem utf16Units_pairChar {high low : Nat} (hhigh : 0xD800 ≤ high ∧ high < 0xDC00)
    (hlow : 0xDC00 ≤ low ∧ low < 0xE000) : utf16Units (pairChar high low) = [high, low] := by
  unfold pairChar
  generalize hn : 0x10000 + (high - 0xD800) * 0x400 + (low - 0xDC00) = n
  have hvalid : n.isValidChar := by
    unfold Nat.isValidChar
    omega
  rw [utf16Units, char_toNat_ofNat hvalid, if_neg (by omega)]
  show [0xD800 + (n - 0x10000) / 0x400, 0xDC00 + (n - 0x10000) % 0x400] = [high, low]
  rw [show 0xD800 + (n - 0x10000) / 0x400 = high by omega,
    show 0xDC00 + (n - 0x10000) % 0x400 = low by omega]

private theorem utf16Units_replacement : utf16Units replacement = [0xFFFD] := by
  decide

private theorem paired_plain_iff {u : Nat} {units : List Nat} (h : u < 0xD800 ∨ 0xE000 ≤ u) :
    Paired (u :: units) ↔ Paired units := by
  refine ⟨fun hpaired => ?_, .plain h⟩
  cases hpaired with
  | plain _ hunits => exact hunits
  | pair hhigh _ _ => omega

private theorem paired_pair_iff {high low : Nat} {units : List Nat}
    (hhigh : 0xD800 ≤ high ∧ high < 0xDC00) (hlow : 0xDC00 ≤ low ∧ low < 0xE000) :
    Paired (high :: low :: units) ↔ Paired units := by
  refine ⟨fun hpaired => ?_, .pair hhigh hlow⟩
  cases hpaired with
  | plain hu _ => omega
  | pair _ _ hunits => exact hunits

/-- A unit that is no surrogate stays. -/
theorem Mends.plain {u : Nat} {units after : List Nat} (hu : u < 0xD800 ∨ 0xE000 ≤ u)
    (hlt : u < 0x10000) (h : Mends units after) :
    Mends (u :: units) (utf16Units (Char.ofNat u) ++ after) := by
  rw [utf16Units_ofNat hu hlt, List.singleton_append]
  refine ⟨.cons (Or.inl rfl) h.each, ?_⟩
  rw [paired_plain_iff hu, ← h.eq_iff, List.cons.injEq]
  exact and_iff_right rfl

/-- So do two that are a pair. -/
theorem Mends.pair {high low : Nat} {units after : List Nat}
    (hhigh : 0xD800 ≤ high ∧ high < 0xDC00) (hlow : 0xDC00 ≤ low ∧ low < 0xE000)
    (h : Mends units after) :
    Mends (high :: low :: units) (utf16Units (pairChar high low) ++ after) := by
  rw [utf16Units_pairChar hhigh hlow]
  refine ⟨.cons (Or.inl rfl) (.cons (Or.inl rfl) h.each), ?_⟩
  rw [paired_pair_iff hhigh hlow, ← h.eq_iff]
  simp

theorem Mends.lone {u : Nat} {units after : List Nat} (hu : 0xD800 ≤ u ∧ u < 0xE000)
    (hlone : ¬ Paired (u :: units)) (h : Mends units after) :
    Mends (u :: units) (utf16Units replacement ++ after) := by
  rw [utf16Units_replacement, List.singleton_append]
  refine ⟨.cons (Or.inr ⟨hu, rfl⟩) h.each, iff_of_false ?_ hlone⟩
  intro heq
  have hhead := List.head_eq_of_cons_eq heq
  omega

/-- Reading joins pairs and replaces the other surrogates, and nothing else. -/
theorem mends_ofUtf16 {units : List Nat} (h : ∀ u ∈ units, u < 0x10000) :
    Mends units ((ofUtf16 units).flatMap utf16Units) := by
  fun_induction ofUtf16 units with
  | case1 => exact ⟨.nil, iff_of_true rfl .nil⟩
  | case2 u =>
    -- The last unit has nothing to be paired with.
    have hnil : Mends [] [] := ⟨.nil, iff_of_true rfl .nil⟩
    by_cases hsurrogate : (isHighSurrogate u || isLowSurrogate u) = true
    · rw [if_pos hsurrogate]
      rw [Bool.or_eq_true, isHighSurrogate_iff, isLowSurrogate_iff] at hsurrogate
      refine hnil.lone (by omega) fun hpaired => ?_
      cases hpaired
      omega
    · rw [if_neg hsurrogate]
      rw [Bool.or_eq_true, isHighSurrogate_iff, isLowSurrogate_iff] at hsurrogate
      exact hnil.plain (by omega) (h u (List.mem_singleton_self u))
  | case3 u v rest hhigh hlow ih =>
    rw [isHighSurrogate_iff] at hhigh
    rw [isLowSurrogate_iff] at hlow
    exact (ih fun w hw => h w (by simp [hw])).pair hhigh hlow
  | case4 u v rest hhigh hlow ih =>
    -- A high surrogate, and no low one behind it.
    rw [isHighSurrogate_iff] at hhigh
    rw [isLowSurrogate_iff] at hlow
    refine (ih fun w hw => h w (List.mem_cons_of_mem _ hw)).lone (by omega) fun hpaired => ?_
    cases hpaired with
    | plain hu _ => omega
    | pair _ hv _ => exact hlow hv
  | case5 u v rest hhigh hlow ih =>
    -- A low surrogate, and no high one before it.
    rw [isLowSurrogate_iff] at hlow
    refine (ih fun w hw => h w (List.mem_cons_of_mem _ hw)).lone (by omega) fun hpaired => ?_
    cases hpaired with
    | plain hu _ => omega
    | pair hu _ _ => omega
  | case6 u v rest hhigh hlow ih =>
    rw [isHighSurrogate_iff] at hhigh
    rw [isLowSurrogate_iff] at hlow
    exact (ih fun w hw => h w (List.mem_cons_of_mem _ hw)).plain (by omega)
      (h u (List.mem_cons_self ..))

namespace ModifiedUtf8

/-- A group of bytes and the unit it stands for. -/
inductive IsGroup : Bytes → Nat → Prop
  | one {a : UInt8} (ha : 0x01 ≤ a.toNat ∧ a.toNat ≤ 0x7F) : IsGroup [a] a.toNat
  | two {a b : UInt8} (ha : 0xC0 ≤ a.toNat ∧ a.toNat ≤ 0xDF) (hb : IsContinuation b) :
      IsGroup [a, b] ((a.toNat - 0xC0) * 0x40 + (b.toNat - 0x80))
  | three {a b c : UInt8} (ha : 0xE0 ≤ a.toNat ∧ a.toNat ≤ 0xEF) (hb : IsContinuation b)
      (hc : IsContinuation c) :
      IsGroup [a, b, c]
        ((a.toNat - 0xE0) * 0x1000 + (b.toNat - 0x80) * 0x40 + (c.toNat - 0x80))

/-- How many bytes a unit needs; zero must not become a zero byte. -/
def neededBytes (u : Nat) : Nat :=
  if u = 0 then 2 else if u < 0x80 then 1 else if u < 0x800 then 2 else 3

/-- No group is longer than its unit needs. -/
def Shortest (group : Bytes) (u : Nat) : Prop := group.length = neededBytes u

/-- A row of shortest groups in which surrogates stand in pairs. -/
def Canonical (bs : Bytes) : Prop :=
  ∃ groups units, bs = groups.flatten ∧ List.Forall₂ IsGroup groups units
    ∧ List.Forall₂ Shortest groups units ∧ Paired units

/-! ## Decoding finds the groups -/

/-- A group in front is read as its unit. -/
theorem IsGroup.unitValues_append {group : Bytes} {u : Nat} (h : IsGroup group u)
    (rest : Bytes) : unitValues (group ++ rest) = (unitValues rest).map (u :: ·) := by
  cases h with
  | one ha => exact unitValues_one ha rest
  | two ha hb => exact unitValues_two ha hb rest
  | three ha hb hc => exact unitValues_three ha hb hc rest

/-- Bytes that are decoded are groups, one for each unit. -/
private theorem groups_of_decodeUnits {bs : Bytes} {units : List UInt16}
    (h : decodeUnits bs = some units) :
    ∃ groups, List.Forall₂ IsGroup groups (units.map UInt16.toNat) ∧ bs = groups.flatten := by
  fun_induction decodeUnits bs generalizing units with
  | case1 =>
    cases h
    exact ⟨[], .nil, rfl⟩
  | case2 a rest hone ih =>
    simp only [Option.bind_eq_bind, Option.bind_eq_some_iff, Option.some.injEq] at h
    obtain ⟨others, hothers, rfl⟩ := h
    obtain ⟨groups, hgroups, rfl⟩ := ih hothers
    exact ⟨[a] :: groups, .cons (.one (between_iff.mp hone)) hgroups, rfl⟩
  | case3 a _ htwo b rest ih =>
    simp only [Option.bind_eq_bind, Option.bind_eq_some_iff, Option.some.injEq] at h
    obtain ⟨low, hb, others, hothers, rfl⟩ := h
    obtain ⟨hb, hlow⟩ := continuation_eq_some.mp hb
    obtain ⟨groups, hgroups, rfl⟩ := ih hothers
    have ha : 0xC0 ≤ a.toNat ∧ a.toNat ≤ 0xDF := between_iff.mp htwo
    rw [List.map_cons, toNat_unitOfTwo ha (hlow ▸ hb.sub_lt), hlow]
    exact ⟨[a, b] :: groups, .cons (.two ha hb) hgroups, rfl⟩
  | case5 a _ _ hthree b c rest ih =>
    simp only [Option.bind_eq_bind, Option.bind_eq_some_iff, Option.some.injEq] at h
    obtain ⟨mid, hb, low, hc, others, hothers, rfl⟩ := h
    obtain ⟨hb, hmid⟩ := continuation_eq_some.mp hb
    obtain ⟨hc, hlow⟩ := continuation_eq_some.mp hc
    obtain ⟨groups, hgroups, rfl⟩ := ih hothers
    have ha : 0xE0 ≤ a.toNat ∧ a.toNat ≤ 0xEF := between_iff.mp hthree
    rw [List.map_cons, toNat_unitOfThree ha (hmid ▸ hb.sub_lt) (hlow ▸ hc.sub_lt), hmid, hlow]
    exact ⟨[a, b, c] :: groups, .cons (.three ha hb hc) hgroups, rfl⟩
  | case4 | case6 | case7 =>
    -- The last group breaks off, or its first byte starts none.
    cases h

/-- Decoding accepts exactly the rows of groups. -/
theorem unitValues_eq_some {bs : Bytes} {units : List Nat} :
    unitValues bs = some units
      ↔ ∃ groups, List.Forall₂ IsGroup groups units ∧ bs = groups.flatten := by
  constructor
  · intro h
    obtain ⟨words, hwords, rfl⟩ := Option.map_eq_some_iff.mp h
    exact groups_of_decodeUnits hwords
  · rintro ⟨groups, hgroups, rfl⟩
    induction hgroups with
    | nil => rfl
    | cons hgroup _ ih => rw [List.flatten_cons, hgroup.unitValues_append, ih, Option.map_some]

/-! ## Groups -/

private theorem length_encodeUnit (u : Nat) : (encodeUnit u).length = neededBytes u := by
  unfold encodeUnit neededBytes
  split_ifs <;> rfl

/-- No group is shorter than its unit needs. -/
theorem IsGroup.neededBytes_le {group : Bytes} {u : Nat} (h : IsGroup group u) :
    neededBytes u ≤ group.length := by
  unfold neededBytes
  cases h with
  | one ha =>
    rw [if_neg (by omega), if_pos (by omega)]
    exact Nat.le_refl 1
  | two ha hb =>
    unfold IsContinuation at hb
    rw [show ∀ a b : UInt8, [a, b].length = 2 from fun _ _ => rfl]
    split_ifs <;> omega
  | three ha hb hc =>
    rw [show ∀ a b c : UInt8, [a, b, c].length = 3 from fun _ _ _ => rfl]
    split_ifs <;> omega

/-- A byte from its value. -/
theorem ofNat_eq_of_toNat {n : Nat} {a : UInt8} (h : n = a.toNat) : UInt8.ofNat n = a := by
  rw [h, UInt8.ofNat_toNat]

/-- There is one shortest group for each unit, the one that is written. -/
theorem IsGroup.encodeUnit_eq {group : Bytes} {u : Nat} (h : IsGroup group u)
    (hshort : Shortest group u) : encodeUnit u = group := by
  unfold Shortest neededBytes at hshort
  unfold encodeUnit
  cases h with
  | one ha => rw [if_neg (by omega), if_pos (by omega), UInt8.ofNat_toNat]
  | @two a b ha hb =>
    unfold IsContinuation at hb
    generalize hu : (a.toNat - 0xC0) * 0x40 + (b.toNat - 0x80) = u at hshort
    -- Two bytes are shortest for zero and from 0x80 on, not in between.
    by_cases hzero : u = 0
    · have hfirst : a = 0xC0 := UInt8.toNat_inj.mp (show a.toNat = 0xC0 by omega)
      have hsecond : b = 0x80 := UInt8.toNat_inj.mp (show b.toNat = 0x80 by omega)
      rw [if_pos hzero, hfirst, hsecond]
    · have hlarge : ¬ u < 0x80 := by
        intro hsmall
        rw [if_neg hzero, if_pos hsmall] at hshort
        cases hshort
      have hfirst : UInt8.ofNat (0xC0 + u / 0x40) = a := ofNat_eq_of_toNat (by omega)
      have hsecond : UInt8.ofNat (0x80 + u % 0x40) = b := ofNat_eq_of_toNat (by omega)
      rw [if_neg hzero, if_neg hlarge, if_pos (by omega), hfirst, hsecond]
  | @three a b c ha hb hc =>
    unfold IsContinuation at hb hc
    generalize hu :
      (a.toNat - 0xE0) * 0x1000 + (b.toNat - 0x80) * 0x40 + (c.toNat - 0x80) = u at hshort
    have hlarge : 0x800 ≤ u := by
      rw [show [a, b, c].length = 3 from rfl] at hshort
      split_ifs at hshort <;> omega
    have hfirst : UInt8.ofNat (0xE0 + u / 0x1000) = a := ofNat_eq_of_toNat (by omega)
    have hsecond : UInt8.ofNat (0x80 + u / 0x40 % 0x40) = b := ofNat_eq_of_toNat (by omega)
    have hthird : UInt8.ofNat (0x80 + u % 0x40) = c := ofNat_eq_of_toNat (by omega)
    rw [if_neg (by omega), if_neg (by omega), if_neg (by omega), hfirst, hsecond, hthird]

/-- What is written for the unit of a group is no longer than the group. -/
theorem IsGroup.trims {group : Bytes} {u : Nat} (h : IsGroup group u) :
    Bytes.Trims (encodeUnit u) group (Shortest group u) := by
  refine ⟨by rw [length_encodeUnit]; exact h.neededBytes_le, fun heq => ?_, h.encodeUnit_eq⟩
  rw [Shortest, ← heq, length_encodeUnit]

/-- A surrogate takes three bytes, as many as the character that stands for it when it
has no partner. -/
theorem IsGroup.trims_replacement {group : Bytes} {u : Nat} (h : IsGroup group u)
    (hu : 0xD800 ≤ u ∧ u < 0xE000) :
    Bytes.Trims (encodeUnit 0xFFFD) group False := by
  have hneeded := h.neededBytes_le
  rw [neededBytes, if_neg (by omega), if_neg (by omega), if_neg (by omega)] at hneeded
  refine ⟨hneeded, fun heq => ?_, False.elim⟩
  -- Read back, the same group would stand for two units.
  have hread := h.unitValues_append []
  rw [← heq, ModifiedUtf8.unitValues_append (by decide)] at hread
  have hunit : 0xFFFD = u := by simpa [unitValues, decodeUnits] using hread
  omega

private theorem IsGroup.unit_lt {group : Bytes} {u : Nat} (h : IsGroup group u) : u < 0x10000 := by
  cases h with
  | one ha => omega
  | two ha hb =>
    unfold IsContinuation at hb
    omega
  | three ha hb hc =>
    unfold IsContinuation at hb hc
    omega

/-! ## Texts -/

/-- Groups are written no longer than they were, if each of their units is kept or replaced. -/
theorem trims_groups {groups : List Bytes} {units after : List Nat}
    (hgroups : List.Forall₂ IsGroup groups units)
    (hafter : List.Forall₂ KeptOrReplaced units after) :
    Bytes.Trims (after.flatMap encodeUnit) groups.flatten
      (List.Forall₂ Shortest groups units ∧ after = units) := by
  induction hgroups generalizing after with
  | nil =>
    cases hafter
    exact Bytes.Trims.rfl.of_iff (iff_of_true trivial ⟨.nil, rfl⟩)
  | @cons group u groups units hgroup _ ih =>
    cases hafter with
    | @cons _ v _ after hv hafter =>
      rw [List.flatMap_cons, List.flatten_cons]
      rcases hv with rfl | ⟨hu, rfl⟩
      · refine (hgroup.trims.append (ih hafter)).of_iff ?_
        rw [List.forall₂_cons, List.cons.injEq]
        tauto
      · refine ((hgroup.trims_replacement hu).append (ih hafter)).of_iff ?_
        rw [List.cons.injEq]
        constructor
        · rintro ⟨hfalse, -⟩
          exact hfalse.elim
        · rintro ⟨-, hhead, -⟩
          omega

/-- A row of groups is written back group by group. -/
theorem trims_units {groups : List Bytes} {units : List Nat}
    (hgroups : List.Forall₂ IsGroup groups units) :
    Bytes.Trims (encode (ofUtf16 units)) groups.flatten
      (List.Forall₂ Shortest groups units ∧ Paired units) := by
  have hlt : ∀ u ∈ units, u < 0x10000 := by
    have hunits := hgroups.flip.imp fun _ _ hgroup => And.intro hgroup.unit_lt hgroup
    exact ((List.forall₂_and_left _ _).mp hunits).1
  have hmends := mends_ofUtf16 hlt
  have htrims := trims_groups hgroups hmends.each
  rwa [hmends.eq_iff, ← encode_eq_units] at htrims

/-- **Encoding after decoding** gives no more bytes, and the same bytes exactly if they
are canonical. -/
theorem trims_decode {bs : Bytes} {cs : List Char} (h : decode bs = some cs) :
    Bytes.Trims (encode cs) bs (Canonical bs) := by
  rw [decode_eq_values] at h
  obtain ⟨units, hunits, rfl⟩ := Option.map_eq_some_iff.mp h
  obtain ⟨groups, hgroups, hbs⟩ := unitValues_eq_some.mp hunits
  have htrims := trims_units hgroups
  rw [← hbs] at htrims
  refine ⟨htrims.length_le, fun heq => ?_, ?_⟩
  · obtain ⟨hshort, hpaired⟩ := htrims.eq_iff.mp heq
    exact ⟨groups, units, hbs, hgroups, hshort, hpaired⟩
  · -- Any other way to see the groups has the same units.
    rintro ⟨groups', units', hbs', hgroups', hshort, hpaired⟩
    have hsame := unitValues_eq_some.mpr ⟨groups', hgroups', hbs'⟩
    rw [hunits, Option.some.injEq] at hsame
    subst hsame
    rw [(trims_units hgroups').eq_iff.mpr ⟨hshort, hpaired⟩, hbs']

end ModifiedUtf8

end Text

end Classdesk
