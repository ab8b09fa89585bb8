import Classdesk.Proofs.Format.RoundTrip
import Mathlib.Data.List.Forall2

/-!
# What the bytes of a class file hold

Reading drops something in two places only: a text is decoded, and a word of flags
loses the bits without a name. `StoredClass` is a class before that, with texts as
bytes and all sixteen bits of every flag word. The main result is

> `StoredClass.of_read`: the bytes that were read for a class are those of a stored
> class that means it.

Every part is taken from `Codec.Keeps`: what was read for a value is what is written
for a stored value that means it.
-/

namespace Classdesk

namespace Codec

/-- What is read for an `α` is the stored form of a `β` that is related to it. -/
def Keeps {α β : Type} [Codec α] [Codec β] (R : β → α → Prop) : Prop :=
  ∀ (bs rest : Bytes) (a : α), read bs = .ok (a, rest) →
    ∃ b front, R b a ∧ write b = .ok front ∧ bs = front ++ rest

/-- Reading an `α` drops nothing. -/
abbrev Lossless (α : Type) [Codec α] : Prop := Keeps fun b a : α => b = a

/-- What is read without loss is written as the bytes it was read from. -/
theorem Lossless.bytes {α : Type} [Codec α] (h : Lossless α) {bs rest : Bytes} {a : α}
    (hread : read bs = .ok (a, rest)) : ∃ front, write a = .ok front ∧ bs = front ++ rest := by
  obtain ⟨_, front, rfl, hwrite, hbs⟩ := h bs rest a hread
  exact ⟨front, hwrite, hbs⟩

/-! ## Numbers and blocks -/

/-- Numbers of any width are stored without loss if every number has a meaning. -/
private theorem lossless_ofWord {α : Type} {w : Nat} {ofNat : Nat → α} {toNat : α → Nat}
    (h : ∀ n < 256 ^ w, toNat (ofNat n) = n) : @Lossless α (ofWord w ofNat toNat) := by
  intro bs rest a hread
  obtain ⟨n, hword, rfl⟩ := Reading.map_eq_ok.mp hread
  obtain ⟨hn, rfl⟩ := readWord_eq_ok.mp hword
  exact ⟨ofNat n, Bytes.ofNat w n, rfl, by show Except.ok _ = _; rw [h n hn], rfl⟩

private theorem lossless_byte : Lossless UInt8 :=
  lossless_ofWord fun _ hn => UInt8.toNat_ofNat_of_lt' hn

private theorem lossless_short : Lossless UInt16 :=
  lossless_ofWord fun _ hn => UInt16.toNat_ofNat_of_lt' hn

private theorem lossless_word : Lossless UInt32 :=
  lossless_ofWord fun _ hn => UInt32.toNat_ofNat_of_lt' hn

private theorem lossless_wide : Lossless UInt64 :=
  lossless_ofWord fun _ hn => UInt64.toNat_ofNat_of_lt' hn

private theorem lossless_int : Lossless Int32 :=
  lossless_ofWord fun n hn => by rw [Int32.toUInt32_ofNat', UInt32.toNat_ofNat_of_lt' hn]

private theorem lossless_long : Lossless Int64 :=
  lossless_ofWord fun n hn => by rw [Int64.toUInt64_ofNat', UInt64.toNat_ofNat_of_lt' hn]

private theorem readBlock_ok {n : Nat} {bs block rest : Bytes}
    (h : readBlock n bs = .ok (block, rest)) : block.length = n ∧ bs = block ++ rest := by
  unfold readBlock at h
  by_cases hlen : (bs.take n).length = n
  · simp only [hlen, if_true, Except.ok.injEq, Prod.mk.injEq] at h
    obtain ⟨rfl, rfl⟩ := h
    exact ⟨hlen, (List.take_append_drop n bs).symm⟩
  · simp only [hlen, if_false, reduceCtorEq] at h

private theorem readSizedBlock_ok {bs block rest : Bytes}
    (h : readSizedBlock bs = .ok (block, rest)) :
    block.length < 2 ^ 32 ∧ bs = writeSizedBlock block ++ rest := by
  obtain ⟨n, mid, hn, hblock⟩ := Reading.bind_eq_ok.mp h
  obtain ⟨size, hsize, rfl⟩ := lossless_word.bytes hn
  obtain ⟨hlen, rfl⟩ := readBlock_ok hblock
  cases hsize
  refine ⟨by rw [hlen]; exact n.toNat_lt, ?_⟩
  rw [writeSizedBlock, hlen, List.append_assoc]

/-! ## Tables -/

/-- Entries are kept one by one. -/
private theorem readEntries_keeps {α β : Type} [Codec α] [Codec β] {R : β → α → Prop}
    (h : Keeps R) :
    ∀ (n : Nat) {bs rest : Bytes} {as : List α}, readEntries n bs = .ok (as, rest) →
      as.length = n ∧ ∃ stored front, List.Forall₂ R stored as
        ∧ writeEntries write stored = .ok front ∧ bs = front ++ rest := by
  intro n
  induction n with
  | zero =>
    intro bs rest as hread
    cases hread
    exact ⟨rfl, [], [], .nil, rfl, rfl⟩
  | succ n ih =>
    intro bs rest as hread
    simp only [readEntries, Reading.bind_eq_ok, Reading.pure_eq_ok, Prod.mk.injEq] at hread
    obtain ⟨a, mid, hfirst, others, _, hothers, rfl, rfl⟩ := hread
    obtain ⟨b, front, hb, hfront, rfl⟩ := h bs mid a hfirst
    obtain ⟨hlen, stored, tail, hstored, htail, rfl⟩ := ih hothers
    refine ⟨by rw [List.length_cons, hlen], b :: stored, front ++ tail, .cons hb hstored, ?_, ?_⟩
    · simp only [writeEntries, Reading.except_bind_eq_ok]
      exact ⟨front, hfront, tail, htail, rfl⟩
    · rw [List.append_assoc]

/-- Tables keep what their entries keep. -/
theorem keeps_table {α β : Type} [Codec α] [Codec β] {R : β → α → Prop} (h : Keeps R) :
    Keeps (List.Forall₂ R : List β → List α → Prop) := by
  intro bs rest as hread
  obtain ⟨n, mid, hn, hentries⟩ := Reading.bind_eq_ok.mp hread
  obtain ⟨size, hsize, rfl⟩ := lossless_short.bytes hn
  obtain ⟨hlen, stored, front, hstored, hfront, rfl⟩ := readEntries_keeps h n.toNat hentries
  cases hsize
  have hcount : stored.length = n.toNat := by rw [hstored.length_eq, hlen]
  refine ⟨stored, Bytes.ofNat 2 stored.length ++ front, hstored, ?_, ?_⟩
  · have hlt : stored.length < 65536 := by rw [hcount]; exact n.toNat_lt
    simp only [write, if_pos hlt, Reading.except_bind_eq_ok]
    exact ⟨front, hfront, rfl⟩
  · rw [hcount, List.append_assoc]

private theorem lossless_table {α : Type} [Codec α] (h : Lossless α) : Lossless (List α) := by
  have htable := keeps_table h
  rwa [show (fun b a : α => b = a) = Eq from rfl, List.forall₂_eq_eq_eq] at htable

/-- What holds of every value that is read holds of the entries of every table. -/
theorem forall_readEntries {α : Type} [Codec α] {P : α → Prop}
    (h : ∀ (bs rest : Bytes) (a : α), read bs = .ok (a, rest) → P a) :
    ∀ (n : Nat) {bs rest : Bytes} {as : List α}, readEntries n bs = .ok (as, rest) →
      ∀ a ∈ as, P a := by
  intro n
  induction n with
  | zero =>
    intro bs rest as hread
    cases hread
    exact fun a ha => absurd ha List.not_mem_nil
  | succ n ih =>
    intro bs rest as hread
    simp only [readEntries, Reading.bind_eq_ok, Reading.pure_eq_ok, Prod.mk.injEq] at hread
    obtain ⟨a, mid, hfirst, others, _, hothers, rfl, rfl⟩ := hread
    exact List.forall_mem_cons.mpr ⟨h bs mid a hfirst, ih hothers⟩

/-- What holds for every element that can be read holds for all elements of a list. -/
theorem forall_table {α : Type} [Codec α] {P : α → Prop}
    (h : ∀ (bs rest : Bytes) (a : α), read bs = .ok (a, rest) → P a) {bs rest : Bytes}
    {as : List α} (hread : read bs = .ok (as, rest)) : ∀ a ∈ as, P a := by
  obtain ⟨n, mid, -, hentries⟩ := Reading.bind_eq_ok.mp hread
  exact forall_readEntries h n.toNat hentries

end Codec

open Codec

/-! ## Parts of a class file -/

/-- Attributes are stored without loss. -/
theorem Attribute.lossless : Lossless Attribute := by
  intro bs rest a hread
  obtain ⟨name, mid, hname, hread⟩ := Reading.bind_eq_ok.mp hread
  obtain ⟨info, _, hinfo, hread⟩ := Reading.bind_eq_ok.mp hread
  cases hread
  obtain ⟨size, hsize, rfl⟩ := lossless_short.bytes hname
  obtain ⟨-, rfl⟩ := readSizedBlock_ok hinfo
  cases hsize
  exact ⟨⟨name, info⟩, _, rfl, rfl, by rw [List.append_assoc]⟩

/-- An attribute that was read is not too long to be written. -/
theorem Attribute.short_of_read {bs rest : Bytes} {a : Attribute}
    (hread : read bs = .ok (a, rest)) : a.Short := by
  obtain ⟨name, mid, hname, hread⟩ := Reading.bind_eq_ok.mp hread
  obtain ⟨info, _, hinfo, hread⟩ := Reading.bind_eq_ok.mp hread
  cases hread
  exact (readSizedBlock_ok hinfo).1

private theorem Version.lossless : Lossless Version := by
  intro bs rest v hread
  obtain ⟨f, mid, hf, major, hmajor, rfl⟩ := Reading.seq_eq_ok.mp hread
  obtain ⟨minor, hminor, rfl⟩ := Reading.map_eq_ok.mp hf
  obtain ⟨first, hfirst, rfl⟩ := lossless_short.bytes hminor
  obtain ⟨second, hsecond, rfl⟩ := lossless_short.bytes hmajor
  cases hfirst
  cases hsecond
  exact ⟨⟨minor, major⟩, _, rfl, rfl, by rw [List.append_assoc]⟩

/-- A member with the named bits of its flags only. -/
def Member.truncate (named : UInt16) (m : Member 0xFFFF) : Member named :=
  ⟨AccessFlags.truncate named m.flags.bits, m.name, m.descriptor, m.attributes⟩

/-- All sixteen bits of a word. -/
theorem AccessFlags.truncate_all (word : UInt16) : (truncate 0xFFFF word).bits = word :=
  UInt16.and_neg_one

/-- The parts that a member is read from. -/
theorem Member.read_ok {named : UInt16} {bs rest : Bytes} {m : Member named}
    (h : read bs = .ok (m, rest)) :
    ∃ (word : UInt16) (afterFlags afterName afterDescriptor : Bytes),
      read bs = .ok (word, afterFlags) ∧ read afterFlags = .ok (m.name, afterName)
        ∧ read afterName = .ok (m.descriptor, afterDescriptor)
        ∧ read afterDescriptor = .ok (m.attributes, rest)
        ∧ m.flags = AccessFlags.truncate named word := by
  obtain ⟨_, _, hshape, attributes, hattributes, rfl⟩ := Reading.seq_eq_ok.mp h
  obtain ⟨_, _, hnamed, descriptor, hdescriptor, rfl⟩ := Reading.seq_eq_ok.mp hshape
  obtain ⟨_, _, hmk, name, hname, rfl⟩ := Reading.seq_eq_ok.mp hnamed
  obtain ⟨flags, hflags, rfl⟩ := Reading.map_eq_ok.mp hmk
  obtain ⟨word, hword, rfl⟩ := Reading.map_eq_ok.mp hflags
  exact ⟨word, _, _, _, hword, hname, hdescriptor, hattributes, rfl⟩

/-- A member comes from one with all bits of its flag word. -/
theorem Member.keeps (named : UInt16) :
    Keeps fun (full : Member 0xFFFF) (m : Member named) => m = full.truncate named := by
  intro bs rest m hread
  obtain ⟨word, _, _, _, hword, hname, hdescriptor, hattributes, hflags⟩ := Member.read_ok hread
  obtain ⟨first, hfirst, rfl⟩ := lossless_short.bytes hword
  obtain ⟨second, hsecond, rfl⟩ := lossless_short.bytes hname
  obtain ⟨third, hthird, rfl⟩ := lossless_short.bytes hdescriptor
  obtain ⟨fourth, hfourth, rfl⟩ := (lossless_table Attribute.lossless).bytes hattributes
  cases hfirst
  cases hsecond
  cases hthird
  refine ⟨⟨AccessFlags.truncate 0xFFFF word, m.name, m.descriptor, m.attributes⟩,
    Bytes.ofNat 2 word.toNat ++ (Bytes.ofNat 2 m.name.toNat
      ++ (Bytes.ofNat 2 m.descriptor.toNat ++ fourth)), ?_, ?_, ?_⟩
  · show m = ⟨AccessFlags.truncate named (AccessFlags.truncate 0xFFFF word).bits, _, _, _⟩
    rw [AccessFlags.truncate_all, ← hflags]
  · refine Reading.except_bind_eq_ok.mpr ⟨_, ?_, Reading.except_bind_eq_ok.mpr ⟨_, hfourth, rfl⟩⟩
    show Except.ok _ = _
    rw [AccessFlags.truncate_all]
  · simp only [List.append_assoc]

/-- The attributes of a member that was read are not too long. -/
theorem Member.short_of_read {named : UInt16} {bs rest : Bytes} {m : Member named}
    (hread : read bs = .ok (m, rest)) : ∀ a ∈ m.attributes, a.Short := by
  obtain ⟨_, _, _, mid, -, -, -, hattributes, -⟩ := Member.read_ok hread
  exact forall_table (fun _ _ _ => Attribute.short_of_read) hattributes

/-! ## Constants -/

private theorem stored_tag_ok {bs rest : Bytes} {tag : UInt8} (h : stored bs = .ok (tag, rest)) :
    bs = tag :: rest := by
  obtain ⟨front, hfront, rfl⟩ := lossless_byte.bytes (mapFault_eq_ok.mp h)
  cases hfront
  simp [Bytes.ofNat]

private theorem HandleKind.code_of_ofCode? {code : UInt8} {kind : HandleKind}
    (h : HandleKind.ofCode? code = some kind) : kind.code = code := by
  unfold HandleKind.ofCode? at h
  split at h <;> cases h <;> rename_i hcode <;> exact UInt8.toNat_inj.mp hcode.symm

/-- A constant as it stands in the file, with a text still in its bytes. -/
inductive StoredConstant
  | text (bytes : Bytes)
  | other (c : Constant) (noText : ∀ value, c ≠ .text value)

namespace StoredConstant

/-- The bytes of a constant. -/
def write : StoredConstant → Except StreamFault Bytes
  | text bytes =>
    if bytes.length < 65536 then .ok (1 :: (Bytes.ofNat 2 bytes.length ++ bytes))
    else .error .textTooLong
  | other c _ => c.write

/-- The constant that a stored one is read as. -/
inductive Means : StoredConstant → Constant → Prop
  | text {bytes : Bytes} {cs : List Char} (h : Text.ModifiedUtf8.decode bytes = some cs) :
      Means (text bytes) (.text (String.ofList cs))
  | other {c : Constant} (noText : ∀ value, c ≠ .text value) : Means (other c noText) c

/-- The bytes of a constant with one part. -/
theorem of_read_one {α : Type} [Codec α] (hα : Lossless α) {f : α → Constant} {tag : UInt8}
    {n : Nat} (htag : tag.toNat = n) (noText : ∀ a value, f a ≠ .text value)
    (hwrite : ∀ a, (f a).write = (Codec.write a).map (UInt8.ofNat n :: ·)) {bs rest : Bytes}
    {c : Constant} (h : (f <$> stored) bs = .ok (c, rest)) :
    ∃ s front, Means s c ∧ s.write = .ok (tag :: front) ∧ bs = front ++ rest := by
  obtain ⟨a, ha, rfl⟩ := Reading.map_eq_ok.mp h
  obtain ⟨front, hfront, rfl⟩ := hα.bytes (mapFault_eq_ok.mp ha)
  refine ⟨.other (f a) (noText a), front, .other _, ?_, rfl⟩
  rw [write, hwrite, hfront, ← htag, UInt8.ofNat_toNat]
  rfl

/-- The bytes of a constant with two words. -/
theorem of_read_pair {f : UInt16 → UInt16 → Constant} {tag : UInt8} {n : Nat}
    (htag : tag.toNat = n) (noText : ∀ a b value, f a b ≠ .text value)
    (hwrite : ∀ a b, (f a b).write = .ok (UInt8.ofNat n :: Constant.write.pair a b))
    {bs rest : Bytes} {c : Constant} (h : (f <$> stored <*> stored) bs = .ok (c, rest)) :
    ∃ s front, Means s c ∧ s.write = .ok (tag :: front) ∧ bs = front ++ rest := by
  obtain ⟨_, _, hf, b, hb, rfl⟩ := Reading.seq_eq_ok.mp h
  obtain ⟨a, ha, rfl⟩ := Reading.map_eq_ok.mp hf
  obtain ⟨first, hfirst, rfl⟩ := lossless_short.bytes (mapFault_eq_ok.mp ha)
  obtain ⟨second, hsecond, rfl⟩ := lossless_short.bytes (mapFault_eq_ok.mp hb)
  cases hfirst
  cases hsecond
  refine ⟨.other (f a b) (noText a b), Constant.write.pair a b, .other _, ?_, ?_⟩
  · rw [write, hwrite, ← htag, UInt8.ofNat_toNat]
  · rw [Constant.write.pair, List.append_assoc]

/-- A text comes from a stored text, in whatever groups. -/
private theorem of_readText {bs rest : Bytes} {c : Constant}
    (hread : Constant.readText bs = .ok (c, rest)) :
    ∃ s front, Means s c ∧ s.write = .ok (1 :: front) ∧ bs = front ++ rest := by
  obtain ⟨size, mid, hsize, hblock⟩ := Reading.bind_eq_ok.mp hread
  obtain ⟨bytes, _, hbytes, htext⟩ := Reading.bind_eq_ok.mp hblock
  obtain ⟨value, _, hlift, h⟩ := Reading.bind_eq_ok.mp htext
  obtain ⟨hvalue, rfl⟩ := Reading.lift_eq_ok.mp hlift
  unfold Constant.textOf at hvalue
  cases hdecode : Text.ModifiedUtf8.decode bytes with
  | none => simp [hdecode] at hvalue
  | some cs =>
    simp only [hdecode, Except.ok.injEq] at hvalue
    simp only [← hvalue, Reading.pure_eq_ok, Prod.mk.injEq] at h
    obtain ⟨rfl, rfl⟩ := h
    obtain ⟨first, hfirst, rfl⟩ := lossless_short.bytes (mapFault_eq_ok.mp hsize)
    obtain ⟨hlen, rfl⟩ := readBlock_ok (mapFault_eq_ok.mp hbytes)
    cases hfirst
    have hlt : bytes.length < 65536 := by
      rw [hlen]
      exact size.toNat_lt
    refine ⟨.text bytes, Bytes.ofNat 2 bytes.length ++ bytes, .text hdecode, ?_, ?_⟩
    · rw [write, if_pos hlt]
    · rw [hlen, List.append_assoc]

private theorem of_readHandle {bs rest : Bytes} {c : Constant}
    (hread : Constant.readHandle bs = .ok (c, rest)) :
    ∃ s front, Means s c ∧ s.write = .ok (15 :: front) ∧ bs = front ++ rest := by
  obtain ⟨code, mid, hcode, h⟩ := Reading.bind_eq_ok.mp hread
  cases hkind : HandleKind.ofCode? code with
  | none => simp [hkind] at h
  | some kind =>
    simp only [hkind] at h
    obtain ⟨member, hmember, rfl⟩ := Reading.map_eq_ok.mp h
    obtain ⟨front, hfront, rfl⟩ := lossless_short.bytes (mapFault_eq_ok.mp hmember)
    cases hfront
    refine ⟨.other (.methodHandle kind member) (by simp), _, .other _, rfl, ?_⟩
    rw [stored_tag_ok hcode, HandleKind.code_of_ofCode? hkind, List.cons_append]

/-- What is read for a constant is what is stored for it. -/
theorem of_read {bs rest : Bytes} {c : Constant} (hread : Constant.read bs = .ok (c, rest)) :
    ∃ s front, Means s c ∧ s.write = .ok front ∧ bs = front ++ rest := by
  obtain ⟨tag, mid, htag, h⟩ := Reading.bind_eq_ok.mp hread
  suffices hparts : ∃ s front, Means s c ∧ s.write = .ok (tag :: front) ∧ mid = front ++ rest by
    obtain ⟨s, front, hs, hwrite, rfl⟩ := hparts
    exact ⟨s, tag :: front, hs, hwrite, stored_tag_ok htag⟩
  generalize htagNat : tag.toNat = n at h
  -- One case for each tag, in the order of the tags.
  split at h
  · obtain rfl : tag = 1 := UInt8.toNat_inj.mp htagNat
    exact of_readText h
  · exact of_read_one lossless_int htagNat (by simp) (fun _ => rfl) h
  · exact of_read_one lossless_word htagNat (by simp) (fun _ => rfl) h
  · exact of_read_one lossless_long htagNat (by simp) (fun _ => rfl) h
  · exact of_read_one lossless_wide htagNat (by simp) (fun _ => rfl) h
  · exact of_read_one lossless_short htagNat (by simp) (fun _ => rfl) h
  · exact of_read_one lossless_short htagNat (by simp) (fun _ => rfl) h
  · exact of_read_pair htagNat (by simp) (fun _ _ => rfl) h
  · exact of_read_pair htagNat (by simp) (fun _ _ => rfl) h
  · exact of_read_pair htagNat (by simp) (fun _ _ => rfl) h
  · exact of_read_pair htagNat (by simp) (fun _ _ => rfl) h
  · obtain rfl : tag = 15 := UInt8.toNat_inj.mp htagNat
    exact of_readHandle h
  · exact of_read_one lossless_short htagNat (by simp) (fun _ => rfl) h
  · exact of_read_pair htagNat (by simp) (fun _ _ => rfl) h
  · exact of_read_pair htagNat (by simp) (fun _ _ => rfl) h
  · exact of_read_one lossless_short htagNat (by simp) (fun _ => rfl) h
  · exact of_read_one lossless_short htagNat (by simp) (fun _ => rfl) h
  · exact absurd h Reading.throw_eq_ok

end StoredConstant

namespace Pool

/-- Reading appends the constants that the bytes are stored forms of. The same constants
as they are written are read to the same pool. -/
theorem readConstants_ok {count : Nat} :
    ∀ (fuel : Nat) {pool after : Pool} {bs rest : Bytes},
      readConstants count fuel pool bs = .ok (after, rest) →
      ∃ (stored : List StoredConstant) (cs : List Constant) (front : Bytes),
        List.Forall₂ StoredConstant.Means stored cs
          ∧ writeEntries StoredConstant.write stored = .ok front ∧ bs = front ++ rest
          ∧ after.slots.toList = pool.slots.toList ++ cs.flatMap Constant.slots
          ∧ ∀ out, writeEntries Constant.write cs = .ok out → ∀ t,
            readConstants count fuel pool (out ++ t) = .ok (after, t) := by
  intro fuel
  induction fuel with
  | zero =>
    intro pool after bs rest hread
    cases hread
    refine ⟨[], [], [], .nil, rfl, rfl, by simp, ?_⟩
    intro out hout t
    cases hout
    rfl
  | succ fuel ih =>
    intro pool after bs rest hread
    unfold readConstants at hread ⊢
    by_cases hroom : pool.slots.size < count
    · simp only [if_pos hroom, Reading.bind_eq_ok] at hread ⊢
      obtain ⟨c, mid, hc, hread⟩ := hread
      rcases Nat.lt_or_ge 65535 (pool.slots.size + c.width) with hfull | hfits
      · -- The pool has no room, so this would have been an error.
        rw [push_full hfull] at hread
        exact absurd hread Reading.throw_eq_ok
      · obtain ⟨next, hpush, hnext, -⟩ := push_fits hfits
        simp only [hpush] at hread
        obtain ⟨s, first, hs, hfirst, rfl⟩ := StoredConstant.of_read hc
        obtain ⟨stored, cs, front, hstored, hfront, rfl, hafter, hagain⟩ := ih hread
        refine ⟨s :: stored, c :: cs, first ++ front, .cons hs hstored, ?_, ?_, ?_, ?_⟩
        · simp only [writeEntries, Reading.except_bind_eq_ok]
          exact ⟨first, hfirst, front, hfront, rfl⟩
        · rw [List.append_assoc]
        · rw [hafter, hnext, List.flatMap_cons, List.append_assoc]
        · intro out hout t
          simp only [writeEntries, Reading.except_bind_eq_ok] at hout
          obtain ⟨bytes, hbytes, others, hothers, hout⟩ := hout
          cases hout
          refine ⟨c, others ++ t, ?_, ?_⟩
          · rw [List.append_assoc]
            exact Constant.read_write hbytes _
          · simp only [hpush]
            exact hagain others hothers t
    · -- All slots are taken.
      simp only [if_neg hroom, Reading.pure_eq_ok, Prod.mk.injEq] at hread ⊢
      obtain ⟨rfl, rfl⟩ := hread
      refine ⟨[], [], [], .nil, rfl, rfl, by simp, ?_⟩
      intro out hout t
      cases hout
      exact ⟨rfl, rfl⟩

/-- The bytes of a pool are the number of slots and the constants. What is written for
the pool is read to the same pool. -/
theorem read_ok {bs rest : Bytes} {pool : Pool} (hread : Pool.read bs = .ok (pool, rest)) :
    ∃ (constants : List StoredConstant) (front : Bytes),
      List.Forall₂ StoredConstant.Means constants (pool.slots.toList.filterMap id)
        ∧ writeEntries StoredConstant.write constants = .ok front
        ∧ bs = Bytes.ofNat 2 pool.slots.size ++ (front ++ rest)
        ∧ ∀ out, pool.write = .ok out → ∀ t, Pool.read (out ++ t) = .ok (pool, t) := by
  simp only [Pool.read, Reading.bind_eq_ok] at hread ⊢
  obtain ⟨count, mid, hcount, found, _, hfound, hfull⟩ := hread
  by_cases hsize : found.slots.size = count.toNat
  · rw [if_pos hsize, Reading.pure_eq_ok, Prod.mk.injEq] at hfull
    obtain ⟨rfl, rfl⟩ := hfull
    obtain ⟨constants, cs, front, hmeans, hfront, rfl, hslots, hagain⟩ :=
      readConstants_ok _ hfound
    obtain ⟨first, hfirst, rfl⟩ := lossless_short.bytes (mapFault_eq_ok.mp hcount)
    cases hfirst
    have hcs : pool.slots.toList.filterMap id = cs := by
      rw [hslots]
      exact filterMap_slots cs
    rw [hcs, hsize]
    refine ⟨constants, front, hmeans, hfront, rfl, ?_⟩
    intro out hout t
    simp only [Pool.write, hcs, hsize, Reading.except_bind_eq_ok] at hout
    obtain ⟨bytes, hbytes, hout⟩ := hout
    cases hout
    rw [List.append_assoc]
    refine ⟨count, bytes ++ t, stored_index count _, pool, t, hagain bytes hbytes t, ?_⟩
    rw [if_pos hsize]
    rfl
  · rw [if_neg hsize] at hfull
    exact absurd hfull Reading.throw_eq_ok

end Pool

/-! ## Classes -/

/-- The parts that a class is read from, each behind the one before it. -/
theorem ClassFile.read_ok {bs rest : Bytes} {c : ClassFile}
    (hread : ClassFile.read bs = .ok (c, rest)) :
    ∃ s₁ s₂ s₃ s₄ s₅ s₆ s₇ s₈ s₉, Codec.read bs = .ok (ClassFile.magic, s₁)
      ∧ Codec.read s₁ = .ok (c.version, s₂) ∧ Pool.read s₂ = .ok (c.pool, s₃)
      ∧ Codec.read s₃ = .ok (c.flags, s₄) ∧ Codec.read s₄ = .ok (c.thisClass, s₅)
      ∧ Codec.read s₅ = .ok (c.superClass, s₆) ∧ Codec.read s₆ = .ok (c.interfaces, s₇)
      ∧ Codec.read s₇ = .ok (c.fields, s₈) ∧ Codec.read s₈ = .ok (c.methods, s₉)
      ∧ Codec.read s₉ = .ok (c.attributes, rest) := by
  simp only [ClassFile.read, Reading.bind_eq_ok, Reading.refuse_eq_ok, Reading.pure_eq_ok,
    Prod.mk.injEq, stored, mapFault_eq_ok] at hread
  obtain ⟨found, s₁, hfound, hmagic, version, s₂, hversion, pool, s₃, hpool, flags, s₄, hflags,
    thisClass, s₅, hthis, superClass, s₆, hsuper, interfaces, s₇, hinterfaces, fields, s₈, hfields,
    methods, s₉, hmethods, attributes, s₁₀, hattributes, rfl, rfl⟩ := hread
  rw [Decidable.not_not.mp hmagic] at hfound
  exact ⟨s₁, s₂, s₃, s₄, s₅, s₆, s₇, s₈, s₉, hfound, hversion, hpool, hflags, hthis, hsuper,
    hinterfaces, hfields, hmethods, hattributes⟩

/-- A class as its bytes have it: texts are not decoded, and flag words have all bits. -/
structure StoredClass where
  version : Version
  /-- The number of slots of the pool, as it is stored in front of the constants. -/
  slotCount : UInt16
  constants : List StoredConstant
  flags : UInt16
  thisClass : ConstIndex
  superClass : ConstIndex
  interfaces : List ConstIndex
  fields : List (Member 0xFFFF)
  methods : List (Member 0xFFFF)
  attributes : List Attribute

namespace StoredClass

/-- The bytes of a stored class. -/
def write (s : StoredClass) : Except StreamFault Bytes := do
  let version ← Codec.write s.version
  let slotCount ← Codec.write s.slotCount
  let constants ← writeEntries StoredConstant.write s.constants
  let flags ← Codec.write s.flags
  let thisClass ← Codec.write s.thisClass
  let superClass ← Codec.write s.superClass
  let interfaces ← Codec.write s.interfaces
  let fields ← Codec.write s.fields
  let methods ← Codec.write s.methods
  let attributes ← Codec.write s.attributes
  pure (Bytes.ofNat 4 ClassFile.magic.toNat ++ (version ++ (slotCount ++ (constants ++ (flags ++
    (thisClass ++ (superClass ++ (interfaces ++ (fields ++ (methods ++ attributes))))))))))

/-- The class that a stored one is read as: texts are decoded, and only the named bits
of the flag words are kept. -/
structure Means (s : StoredClass) (c : ClassFile) : Prop where
  version : c.version = s.version
  slotCount : c.pool.slots.size = s.slotCount.toNat
  constants : List.Forall₂ StoredConstant.Means s.constants (c.pool.slots.toList.filterMap id)
  flags : c.flags = AccessFlags.truncate _ s.flags
  thisClass : c.thisClass = s.thisClass
  superClass : c.superClass = s.superClass
  interfaces : c.interfaces = s.interfaces
  fields : List.Forall₂ (fun full m => m = Member.truncate _ full) s.fields c.fields
  methods : List.Forall₂ (fun full m => m = Member.truncate _ full) s.methods c.methods
  attributes : c.attributes = s.attributes

/-- **Nothing is lost but texts and flags**: the bytes that were read for a class are
those of a stored class that means it. -/
theorem of_read {bs rest : Bytes} {c : ClassFile} (hread : ClassFile.read bs = .ok (c, rest)) :
    ∃ (s : StoredClass) (front : Bytes),
      s.Means c ∧ s.write = .ok front ∧ bs = front ++ rest := by
  obtain ⟨_, _, _, _, _, _, _, _, _, hmagic, hversion, hpool, hflags, hthis, hsuper, hinterfaces,
    hfields, hmethods, hattributes⟩ := ClassFile.read_ok hread
  obtain ⟨magicBytes, hmagicBytes, rfl⟩ := lossless_word.bytes hmagic
  obtain ⟨versionBytes, hversionBytes, rfl⟩ := Version.lossless.bytes hversion
  obtain ⟨constants, constantBytes, hconstants, hconstantBytes, rfl, -⟩ := Pool.read_ok hpool
  obtain ⟨word, hword, hnamed⟩ := Reading.map_eq_ok.mp hflags
  obtain ⟨flagBytes, hflagBytes, rfl⟩ := lossless_short.bytes hword
  obtain ⟨thisBytes, hthisBytes, rfl⟩ := lossless_short.bytes hthis
  obtain ⟨superBytes, hsuperBytes, rfl⟩ := lossless_short.bytes hsuper
  obtain ⟨interfaceBytes, hinterfaceBytes, rfl⟩ :=
    (lossless_table lossless_short).bytes hinterfaces
  obtain ⟨fullFields, fieldBytes, hfullFields, hfieldBytes, rfl⟩ :=
    keeps_table (Member.keeps _) _ _ _ hfields
  obtain ⟨fullMethods, methodBytes, hfullMethods, hmethodBytes, rfl⟩ :=
    keeps_table (Member.keeps _) _ _ _ hmethods
  obtain ⟨attributeBytes, hattributeBytes, rfl⟩ :=
    (lossless_table Attribute.lossless).bytes hattributes
  -- The number of slots came from a word of two bytes, so it is one again.
  obtain ⟨count, hcount⟩ : ∃ count : UInt16, c.pool.slots.size = count.toNat := by
    have hle := (Pool.read_wellFormed hpool).size_le
    exact ⟨UInt16.ofNat c.pool.slots.size, by rw [UInt16.toNat_ofNat', Nat.mod_eq_of_lt (by omega)]⟩
  cases hmagicBytes
  refine ⟨⟨c.version, count, constants, word, c.thisClass, c.superClass,
    c.interfaces, fullFields, fullMethods, c.attributes⟩,
    Bytes.ofNat 4 ClassFile.magic.toNat ++ (versionBytes ++ (Bytes.ofNat 2 count.toNat
      ++ (constantBytes ++ (flagBytes ++ (thisBytes ++ (superBytes ++ (interfaceBytes
      ++ (fieldBytes ++ (methodBytes ++ attributeBytes))))))))),
    ⟨rfl, hcount, hconstants, hnamed.symm, rfl, rfl, rfl, hfullFields, hfullMethods, rfl⟩, ?_, ?_⟩
  · simp only [write, Reading.except_bind_eq_ok]
    exact ⟨versionBytes, hversionBytes, _, rfl, constantBytes, hconstantBytes, flagBytes,
      hflagBytes, thisBytes, hthisBytes, superBytes, hsuperBytes, interfaceBytes, hinterfaceBytes,
      fieldBytes, hfieldBytes, methodBytes, hmethodBytes, attributeBytes, hattributeBytes, rfl⟩
  · simp only [hcount, List.append_assoc]

end StoredClass

end Classdesk
