import Classdesk.Format.Constant
import Classdesk.Proofs.Text.CanonicalForm

/-!
# Texts and the bytes they are stored as

`textOf_exact` puts together what modified UTF-8 promises. Every text is read back from
its bytes, and these hold no zero and nothing from `F0` on. Some bytes are a text exactly
if they are a row of groups, and malformed otherwise. Reading and writing again gives no
more bytes than there were, and gives the same ones exactly if every group is the shortest
for its unit and all surrogates stand in pairs.

That no written byte is zero is not seen from the writer: it holds of every byte in every
group (`IsGroup.byte_bounds`), and what is written can be read, so it is made of groups.
-/

namespace Classdesk.Text.ModifiedUtf8

/-- Bytes that are a row of groups. -/
def InGroups (bs : Bytes) : Prop :=
  ∃ groups units, List.Forall₂ IsGroup groups units ∧ bs = groups.flatten

/-- No byte of a group is zero or starts a group of four. -/
theorem IsGroup.byte_bounds {group : Bytes} {u : Nat} (h : IsGroup group u) :
    ∀ b ∈ group, 0x00 < b.toNat ∧ b.toNat < 0xF0 := by
  intro b hb
  cases h with
  | one ha =>
    rw [List.mem_singleton.mp hb]
    omega
  | two ha hc =>
    unfold IsContinuation at hc
    simp only [List.mem_cons, List.not_mem_nil, or_false] at hb
    rcases hb with rfl | rfl
    · omega
    · omega
  | three ha hc hd =>
    unfold IsContinuation at hc hd
    simp only [List.mem_cons, List.not_mem_nil, or_false] at hb
    rcases hb with rfl | rfl | rfl
    · omega
    · omega
    · omega

/-- The same for everything that can be read. -/
theorem byte_bounds_of_decode {bs : Bytes} {cs : List Char} (h : decode bs = some cs) :
    ∀ b ∈ bs, 0x00 < b.toNat ∧ b.toNat < 0xF0 := by
  intro b hb
  rw [decode_eq_values] at h
  obtain ⟨units, hunits, -⟩ := Option.map_eq_some_iff.mp h
  obtain ⟨groups, hgroups, rfl⟩ := unitValues_eq_some.mp hunits
  obtain ⟨group, hgroup, hmem⟩ := List.mem_flatten.mp hb
  obtain ⟨i, hi, rfl⟩ := List.mem_iff_getElem.mp hgroup
  have hunit : i < units.length := hgroups.length_eq ▸ hi
  exact (hgroups.get hi hunit).byte_bounds b hmem

end Classdesk.Text.ModifiedUtf8

namespace Classdesk.Constant

open Text Text.ModifiedUtf8

/-- A row of groups is the text of its units. -/
theorem textOf_groups {groups : List Bytes} {units : List Nat}
    (h : List.Forall₂ IsGroup groups units) :
    textOf groups.flatten = .ok (String.ofList (ofUtf16 units)) := by
  have hunits := unitValues_eq_some.mpr ⟨groups, h, rfl⟩
  rw [textOf, decode_eq_values, hunits, Option.map_some]

/-- What is no row of groups is malformed. -/
theorem textOf_malformed {bs : Bytes} (h : ¬ InGroups bs) : textOf bs = .error .malformedText := by
  have hunits : unitValues bs = none := by
    cases hread : unitValues bs with
    | none => rfl
    | some units =>
      obtain ⟨groups, hgroups, hbs⟩ := unitValues_eq_some.mp hread
      exact absurd ⟨groups, units, hgroups, hbs⟩ h
  rw [textOf, decode_eq_values, hunits, Option.map_none]

/-- A text is read back from its bytes. -/
private theorem textOf_encode (s : String) : textOf (encode s.toList) = .ok s := by
  simp only [textOf, decode_encode, String.ofList_toList]

/-- **Modified UTF-8 is exact in both directions.** -/
theorem textOf_exact :
    (∀ s : String, textOf (encode s.toList) = .ok s
      ∧ ∀ b ∈ encode s.toList, b ≠ 0x00 ∧ b < 0xF0)
    ∧ (∀ bs : Bytes, ((∃ s, textOf bs = .ok s) ↔ InGroups bs)
      ∧ (¬ InGroups bs → textOf bs = .error .malformedText))
    ∧ ∀ groups units, List.Forall₂ IsGroup groups units →
        ∃ s, textOf groups.flatten = .ok s
          ∧ (encode s.toList).length ≤ groups.flatten.length
          ∧ (encode s.toList = groups.flatten
              ↔ List.Forall₂ Shortest groups units ∧ Paired units) := by
  refine ⟨fun s => ⟨textOf_encode s, fun b hb => ?_⟩, fun bs => ⟨⟨?_, ?_⟩, textOf_malformed⟩, ?_⟩
  · have hbounds := byte_bounds_of_decode (decode_encode s.toList) b hb
    refine ⟨fun hzero => ?_, UInt8.lt_iff_toNat_lt.mpr hbounds.2⟩
    rw [hzero] at hbounds
    exact absurd hbounds.1 (by decide)
  · rintro ⟨s, hs⟩
    by_contra hgroups
    rw [textOf_malformed hgroups] at hs
    cases hs
  · rintro ⟨groups, units, hgroups, rfl⟩
    exact ⟨_, textOf_groups hgroups⟩
  · intro groups units hgroups
    have htrims := trims_units hgroups
    refine ⟨_, textOf_groups hgroups, ?_⟩
    rw [String.toList_ofList]
    exact ⟨htrims.length_le, htrims.eq_iff⟩

/-- A letter that takes two bytes too many, a pair of surrogates, and a surrogate that
stands alone. -/
def looseGroups : List Bytes :=
  [[0xE0, 0x81, 0x81], [0xED, 0xA0, 0xBD], [0xED, 0xB8, 0x80], [0xED, 0xA0, 0xBD]]

/-- Such bytes are read and written again in fewer, or other, bytes; half a group is refused. -/
theorem looseGroups_exact :
    (∃ s, textOf looseGroups.flatten = .ok s
      ∧ (encode s.toList).length ≤ looseGroups.flatten.length
      ∧ encode s.toList ≠ looseGroups.flatten)
    ∧ textOf [0xED, 0xA0] = .error .malformedText := by
  have hgroups : List.Forall₂ IsGroup looseGroups [0x41, 0xD83D, 0xDE00, 0xD83D] :=
    .cons (.three (by decide) (by decide) (by decide))
      (.cons (.three (by decide) (by decide) (by decide))
        (.cons (.three (by decide) (by decide) (by decide))
          (.cons (.three (by decide) (by decide) (by decide)) .nil)))
  obtain ⟨-, hbytes, hrows⟩ := textOf_exact
  obtain ⟨s, hs, hle, heq⟩ := hrows looseGroups _ hgroups
  refine ⟨⟨s, hs, hle, fun hsame => ?_⟩, (hbytes [0xED, 0xA0]).2 fun hin => ?_⟩
  · obtain ⟨hshort, -⟩ := heq.mp hsame
    cases hshort with
    | cons hfirst _ => cases hfirst
  · obtain ⟨s, hs⟩ := (hbytes [0xED, 0xA0]).1.mpr hin
    cases hs

end Classdesk.Constant
