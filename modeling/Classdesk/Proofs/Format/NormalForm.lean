import Classdesk.Proofs.Format.StoredForm
import Classdesk.Proofs.Text.CanonicalForm

/-!
# Writing what was read

A class that was read can be written, and what is written is a normal form of what was
read:

> `ClassFile.parse_normalizes`: it is no longer, it is read as the same class again, and
> it is the same bytes exactly if the texts are canonical and the flag words have no bit
> without a name.

The stored class is compared with the written one part by part, with `Bytes.Trims`.
-/

namespace Classdesk

open Codec

/-! ## Parts that are written shorter -/

private theorem Bytes.ofNat_inj {w m n : Nat} (hm : m < 256 ^ w) (hn : n < 256 ^ w) :
    ofNat w m = ofNat w n ↔ m = n := by
  constructor
  · intro h
    have hnat := congrArg toNat h
    rwa [toNat_ofNat, toNat_ofNat, Nat.mod_eq_of_lt hm, Nat.mod_eq_of_lt hn] at hnat
  · intro h
    rw [h]

namespace Codec

/-- A row of entries is trimmed if each entry is. -/
theorem trims_entries {α β : Type} {R : β → α → Prop} {P : β → Prop}
    {original : β → Except StreamFault Bytes} {form : α → Except StreamFault Bytes}
    (h : ∀ b a front, R b a → original b = .ok front →
      ∃ out, form a = .ok out ∧ Bytes.Trims out front (P b))
    {bs : List β} {as : List α} (hR : List.Forall₂ R bs as) {front : Bytes}
    (hfront : writeEntries original bs = .ok front) :
    ∃ out, writeEntries form as = .ok out ∧ Bytes.Trims out front (∀ b ∈ bs, P b) := by
  induction hR generalizing front with
  | nil =>
    cases hfront
    exact ⟨[], rfl, Bytes.Trims.rfl.of_iff (by simp)⟩
  | @cons b a bs as hba _ ih =>
    simp only [writeEntries, Reading.except_bind_eq_ok] at hfront ⊢
    obtain ⟨first, hfirst, others, hothers, hfront⟩ := hfront
    cases hfront
    obtain ⟨out, hout, htrims⟩ := h b a first hba hfirst
    obtain ⟨outs, houts, htrimsOthers⟩ := ih hothers
    refine ⟨out ++ outs, ⟨out, hout, outs, houts, rfl⟩, ?_⟩
    exact (htrims.append htrimsOthers).of_iff List.forall_mem_cons.symm

/-- A table is trimmed if each entry is; the count stays. -/
theorem trims_table {α β : Type} [Codec α] [Codec β] {R : β → α → Prop} {P : β → Prop}
    (h : ∀ b a front, R b a → write b = .ok front →
      ∃ out, write a = .ok out ∧ Bytes.Trims out front (P b))
    {bs : List β} {as : List α} (hR : List.Forall₂ R bs as) {front : Bytes}
    (hfront : write bs = .ok front) :
    ∃ out, write as = .ok out ∧ Bytes.Trims out front (∀ b ∈ bs, P b) := by
  simp only [write] at hfront ⊢
  rw [← hR.length_eq]
  by_cases hlen : bs.length < 65536
  · rw [if_pos hlen] at hfront ⊢
    simp only [Reading.except_bind_eq_ok] at hfront ⊢
    obtain ⟨entries, hentries, hfront⟩ := hfront
    cases hfront
    obtain ⟨out, hout, htrims⟩ := trims_entries h hR hentries
    exact ⟨_, ⟨out, hout, rfl⟩, htrims.prepend _⟩
  · rw [if_neg hlen] at hfront
    cases hfront

end Codec

/-- A word of flags is the same without the bits that have no name if it has none. -/
theorem AccessFlags.trims (named word : UInt16) :
    Bytes.Trims (Bytes.ofNat 2 (truncate named word).bits.toNat) (Bytes.ofNat 2 word.toNat)
      (word &&& named = word) := by
  refine ⟨by rw [Bytes.length_ofNat, Bytes.length_ofNat], ?_⟩
  rw [Bytes.ofNat_inj (UInt16.toNat_lt _) (UInt16.toNat_lt _), UInt16.toNat_inj]
  rfl

/-- Writing a member again leaves out the flags that have no name, and nothing else. -/
theorem Member.trims {named : UInt16} (full : Member 0xFFFF) (m : Member named) (front : Bytes)
    (h : m = full.truncate named) (hfront : Codec.write full = .ok front) :
    ∃ out, Codec.write m = .ok out
      ∧ Bytes.Trims out front (full.flags.bits &&& named = full.flags.bits) := by
  subst h
  obtain ⟨flags, hflags, hfront⟩ := Reading.except_bind_eq_ok.mp hfront
  obtain ⟨attributes, hattributes, hfront⟩ := Reading.except_bind_eq_ok.mp hfront
  cases hflags
  cases hfront
  refine ⟨_, Reading.except_bind_eq_ok.mpr ⟨_, rfl, Reading.except_bind_eq_ok.mpr
    ⟨attributes, hattributes, rfl⟩⟩, ?_⟩
  exact (AccessFlags.trims named full.flags.bits).postpend _

namespace StoredConstant

/-- Whether a text is stored as it is written. -/
def IsCanonical : StoredConstant → Prop
  | text bytes => Text.ModifiedUtf8.Canonical bytes
  | other _ _ => True

/-- Writing a constant again replaces its text by the canonical form, and nothing else. -/
theorem trims (s : StoredConstant) (c : Constant) (front : Bytes) (h : Means s c)
    (hfront : s.write = .ok front) :
    ∃ out, c.write = .ok out ∧ Bytes.Trims out front s.IsCanonical := by
  cases h with
  | other noText => exact ⟨front, hfront, Bytes.Trims.rfl⟩
  | @text bytes cs hdecode =>
    have htrims := Text.ModifiedUtf8.trims_decode hdecode
    have hle := htrims.length_le
    simp only [write] at hfront
    by_cases hlen : bytes.length < 65536
    · rw [if_pos hlen] at hfront
      cases hfront
      refine ⟨1 :: (Bytes.ofNat 2 (Text.ModifiedUtf8.encode cs).length
        ++ Text.ModifiedUtf8.encode cs), ?_, ?_⟩
      · simp only [Constant.write, String.toList_ofList]
        rw [if_pos (by omega), List.cons_append]
      · -- The length in front is the same if the bytes are.
        refine ⟨?_, ?_, ?_⟩
        · simp only [List.length_cons, List.length_append, Bytes.length_ofNat]
          omega
        · intro heq
          have hparts := List.append_inj (List.cons.inj heq).2 (by simp)
          exact htrims.eq_iff.mp hparts.2
        · intro hcanonical
          rw [htrims.eq_iff.mpr hcanonical]
    · rw [if_neg hlen] at hfront
      cases hfront

end StoredConstant

namespace StoredClass

/-- Every text is canonical modified UTF-8, and no word of flags has a bit without a
name. -/
structure IsCanonical (s : StoredClass) : Prop where
  texts : ∀ k ∈ s.constants, k.IsCanonical
  flags : s.flags &&& 0xF631 = s.flags
  fields : ∀ m ∈ s.fields, m.flags.bits &&& 0x50DF = m.flags.bits
  methods : ∀ m ∈ s.methods, m.flags.bits &&& 0x1DFF = m.flags.bits

/-- A class is written no longer than it was stored, and the same only if it was stored
in canonical form. -/
theorem trims {s : StoredClass} {c : ClassFile} (h : s.Means c) {front : Bytes}
    (hfront : s.write = .ok front) :
    ∃ out, c.write = .ok out ∧ Bytes.Trims out front s.IsCanonical := by
  simp only [write, Reading.except_bind_eq_ok] at hfront
  obtain ⟨version, hversion, slotCount, hslotCount, constants, hconstants, flags, hflags,
    this, hthis, super, hsuper, interfaces, hinterfaces, fields, hfields, methods, hmethods,
    attributes, hattributes, hfront⟩ := hfront
  cases hslotCount
  cases hflags
  cases hfront
  obtain ⟨constantsOut, hconstantsOut, htexts⟩ :=
    trims_entries StoredConstant.trims h.constants hconstants
  obtain ⟨fieldsOut, hfieldsOut, hfieldFlags⟩ := trims_table Member.trims h.fields hfields
  obtain ⟨methodsOut, hmethodsOut, hmethodFlags⟩ := trims_table Member.trims h.methods hmethods
  refine ⟨Bytes.ofNat 4 ClassFile.magic.toNat ++ (version ++ ((Bytes.ofNat 2 s.slotCount.toNat
    ++ constantsOut) ++ (Bytes.ofNat 2 (AccessFlags.truncate 0xF631 s.flags).bits.toNat ++ (this
    ++ (super ++ (interfaces ++ (fieldsOut ++ (methodsOut ++ attributes)))))))), ?_, ?_⟩
  · simp only [ClassFile.write, Pool.write, Reading.except_bind_eq_ok, h.version, h.slotCount,
      h.flags, h.thisClass, h.superClass, h.interfaces, h.attributes]
    exact ⟨version, hversion, _, ⟨constantsOut, hconstantsOut, rfl⟩, _, rfl, this, hthis, super,
      hsuper, interfaces, hinterfaces, fieldsOut, hfieldsOut, methodsOut, hmethodsOut, attributes,
      hattributes, rfl⟩
  · -- Part by part, from the last one to the magic number; the rest is the same bytes.
    have hflagWord := AccessFlags.trims 0xF631 s.flags
    have hmembers := hfieldFlags.append (hmethodFlags.postpend attributes)
    have htail := hflagWord.append (((hmembers.prepend interfaces).prepend super).prepend this)
    have hall := ((htexts.append htail).prepend (Bytes.ofNat 2 s.slotCount.toNat)).prepend version
    have hall' := hall.prepend (Bytes.ofNat 4 ClassFile.magic.toNat)
    simp only [List.append_assoc]
    refine hall'.of_iff ⟨?_, ?_⟩
    · rintro ⟨htexts, hflags, hfields, hmethods⟩
      exact ⟨htexts, hflags, hfields, hmethods⟩
    · intro hcanonical
      exact ⟨hcanonical.texts, hcanonical.flags, hcanonical.fields, hcanonical.methods⟩

end StoredClass

namespace ClassFile

/-- The class `c` was read off the front of `b`, and `out` is a normal form of this
front. -/
structure Normalizes (b : Bytes) (c : ClassFile) (front rest out : Bytes) : Prop where
  split : b = front ++ rest
  reads : read b = .ok (c, rest)
  writes : c.write = .ok out
  length_le : out.length ≤ front.length
  /-- What was written is read as the same class, so it is written the same again. -/
  reads_again : parse out = .ok c
  stored : ∃ s : StoredClass, s.Means c ∧ s.write = .ok front
  eq_iff : ∀ s : StoredClass, s.Means c → s.write = .ok front → (out = front ↔ s.IsCanonical)

/-- All attributes of a class that was read are short. -/
theorem short_of_read {bs rest : Bytes} {c : ClassFile} (hread : read bs = .ok (c, rest)) :
    ∀ a ∈ c.allAttributes, a.Short := by
  obtain ⟨_, _, _, _, _, _, _, _, _, -, -, -, -, -, -, -, hfields, hmethods, hattributes⟩ :=
    read_ok hread
  have hfieldsShort := forall_table (fun _ _ _ => Member.short_of_read) hfields
  have hmethodsShort := forall_table (fun _ _ _ => Member.short_of_read) hmethods
  have hown := forall_table (fun _ _ _ => Attribute.short_of_read) hattributes
  intro a ha
  simp only [allAttributes, List.mem_append, List.mem_flatMap] at ha
  rcases ha with (⟨m, hm, ha⟩ | ⟨m, hm, ha⟩) | ha
  · exact hfieldsShort m hm a ha
  · exact hmethodsShort m hm a ha
  · exact hown a ha

/-- What is written for a class that was read is read as this class. -/
theorem parse_again {bs rest : Bytes} {c : ClassFile} (hread : read bs = .ok (c, rest))
    {out : Bytes} (hout : c.write = .ok out) : parse out = .ok c := by
  obtain ⟨_, _, _, _, _, _, _, _, _, -, -, hpool, -⟩ := read_ok hread
  obtain ⟨_, _, -, -, -, hagain⟩ := Pool.read_ok hpool
  obtain ⟨found, hfound, hsame⟩ := read_write_with (P := fun found => found = c.pool)
    (fun bytes hbytes t => ⟨c.pool, hagain bytes hbytes t, rfl⟩) (short_of_read hread) hout []
  rw [List.append_nil, hsame] at hfound
  rw [parse, hfound]
  rfl

/-- **Every class that can be read can be written, in normal form.** -/
theorem parse_normalizes {b : Bytes} {c : ClassFile} (h : parse b = .ok c) :
    ∃ front rest out, Normalizes b c front rest out := by
  cases hread : read b with
  | error e =>
    rw [parse, hread] at h
    cases h
  | ok r =>
    obtain ⟨found, rest⟩ := r
    rw [parse, hread] at h
    cases h
    obtain ⟨s, front, hmeans, hfront, hb⟩ := StoredClass.of_read hread
    obtain ⟨out, hout, htrims⟩ := StoredClass.trims hmeans hfront
    refine ⟨front, rest, out, hb, hread, hout, htrims.length_le, parse_again hread hout,
      ⟨s, hmeans, hfront⟩, ?_⟩
    intro s' hmeans' hfront'
    obtain ⟨out', hout', htrims'⟩ := StoredClass.trims hmeans' hfront'
    rw [hout] at hout'
    cases hout'
    exact htrims'.eq_iff

/-- A stored class with one name, the letter A in two bytes, and a flag without a name;
one more byte follows. -/
def overlongName : Bytes :=
  [0xCA, 0xFE, 0xBA, 0xBE, 0, 0, 0, 52, 0, 3, 1, 0, 2, 0xC1, 0x81, 7, 0, 1, 0x08, 0x21, 0, 2,
    0, 0, 0, 0, 0, 0, 0, 0, 0, 0, 0xFF]

/-- The same class in normal form. -/
def plainName : Bytes :=
  [0xCA, 0xFE, 0xBA, 0xBE, 0, 0, 0, 52, 0, 3, 1, 0, 1, 0x41, 7, 0, 1, 0x00, 0x21, 0, 2,
    0, 0, 0, 0, 0, 0, 0, 0, 0, 0]

/-- A name in longer groups than needed is written in the shortest ones. -/
theorem overlongName_normalizes :
    ∃ c front rest, parse overlongName = .ok c
      ∧ Normalizes overlongName c front rest plainName := by
  obtain ⟨c, hparse, hwrite⟩ :
      ∃ c, parse overlongName = .ok c ∧ c.write = .ok plainName := ⟨_, rfl, rfl⟩
  obtain ⟨front, rest, out, hnormal⟩ := parse_normalizes hparse
  have hout := hnormal.writes
  rw [hwrite] at hout
  cases hout
  exact ⟨c, front, rest, hparse, hnormal⟩

end ClassFile

end Classdesk
