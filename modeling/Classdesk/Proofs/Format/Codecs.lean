import Classdesk.Format.ClassFile
import Classdesk.Proofs.Reading
import Mathlib.Algebra.Group.Nat.Even
import Mathlib.Tactic.Ring

/-!
# Stored values are read back

`RoundTrips a` says of one value: if it can be written, then reading takes exactly the
bytes that were written, whatever follows, and gives the value again. Numbers always
round-trip, a table does if its entries do, and a named block does if its length fits
the 32-bit number in front of it. The entries of a class file are put together from
these.
-/

namespace Classdesk

namespace Bytes

/-- Writing keeps the digits that fit. -/
theorem toNat_ofNat (w n : Nat) : toNat (ofNat w n) = n % 256 ^ w := by
  induction w generalizing n with
  | zero => simp [ofNat, Nat.mod_one]
  | succ w ih =>
    rw [toNat_ofNat_succ, ih, Nat.pow_succ', Nat.mod_mul]
    ring

/-- Bytes bound the number they stand for. -/
theorem toNat_lt (bs : Bytes) : toNat bs < 256 ^ bs.length := by
  have h : toNat bs = toNat bs % 256 ^ bs.length := by
    conv_lhs => rw [← ofNat_toNat bs, toNat_ofNat]
  rw [h]
  exact Nat.mod_lt _ (Nat.pow_pos (by decide))

end Bytes

namespace Codec

/-- What was written for `a` is read back as `a`, whatever follows. -/
def RoundTrips {α : Type} [Codec α] (a : α) : Prop :=
  ∀ bs rest, write a = .ok bs → read (bs ++ rest) = .ok (a, rest)

/-! ## Numbers and blocks -/

/-- A number that fits is read back from its bytes. -/
private theorem readWord_append {w n : Nat} (h : n < 256 ^ w) (rest : Bytes) :
    readWord w (Bytes.ofNat w n ++ rest) = .ok (n, rest) := by
  have hlen : (Bytes.ofNat w n).length = w := Bytes.length_ofNat w n
  have htake : (Bytes.ofNat w n ++ rest).take w = Bytes.ofNat w n := List.take_left' hlen
  have hdrop : (Bytes.ofNat w n ++ rest).drop w = rest := List.drop_left' hlen
  simp only [readWord, htake, hdrop, hlen, if_true, Bytes.toNat_ofNat, Nat.mod_eq_of_lt h]

/-- Numbers are read off their digits, and nothing else is read. -/
theorem readWord_eq_ok {w n : Nat} {bs rest : Bytes} :
    readWord w bs = .ok (n, rest) ↔ n < 256 ^ w ∧ bs = Bytes.ofNat w n ++ rest := by
  constructor
  · intro h
    unfold readWord at h
    by_cases hlen : (bs.take w).length = w
    · simp only [hlen, if_true, Except.ok.injEq, Prod.mk.injEq] at h
      obtain ⟨rfl, rfl⟩ := h
      have hlt := Bytes.toNat_lt (bs.take w)
      have hback := Bytes.ofNat_toNat (bs.take w)
      rw [hlen] at hlt hback
      exact ⟨hlt, by rw [hback, List.take_append_drop]⟩
    · simp only [hlen, if_false, reduceCtorEq] at h
  · rintro ⟨hlt, rfl⟩
    exact readWord_append hlt rest

/-- A type that is stored as a number round-trips if the number gives the value. -/
theorem roundTrips_ofWord {α : Type} {w : Nat} {ofNat : Nat → α} {toNat : α → Nat} {a : α}
    (hlt : toNat a < 256 ^ w) (hinv : ofNat (toNat a) = a) :
    @RoundTrips α (ofWord w ofNat toNat) a := by
  intro bs rest h
  cases h
  show (ofNat <$> readWord w) (Bytes.ofNat w (toNat a) ++ rest) = .ok (a, rest)
  exact Reading.map_eq_ok.mpr ⟨toNat a, readWord_append hlt rest, hinv⟩

theorem roundTrips_byte (a : UInt8) : RoundTrips a :=
  roundTrips_ofWord a.toNat_lt UInt8.ofNat_toNat

theorem roundTrips_short (a : UInt16) : RoundTrips a :=
  roundTrips_ofWord a.toNat_lt UInt16.ofNat_toNat

theorem roundTrips_word (a : UInt32) : RoundTrips a :=
  roundTrips_ofWord a.toNat_lt UInt32.ofNat_toNat

theorem roundTrips_wide (a : UInt64) : RoundTrips a :=
  roundTrips_ofWord a.toNat_lt UInt64.ofNat_toNat

theorem roundTrips_int (a : Int32) : RoundTrips a := by
  refine roundTrips_ofWord a.toUInt32.toNat_lt ?_
  rw [← Int32.toBitVec_inj, Int32.toBitVec_ofNat']
  simp

theorem roundTrips_long (a : Int64) : RoundTrips a := by
  refine roundTrips_ofWord a.toUInt64.toNat_lt ?_
  rw [← Int64.toBitVec_inj, Int64.toBitVec_ofNat']
  simp

/-- Two bytes are read back, whatever follows. -/
theorem read_short (a : UInt16) (rest : Bytes) :
    read (Bytes.ofNat 2 a.toNat ++ rest) = .ok (a, rest) :=
  roundTrips_short a _ rest rfl

/-- A block of known length is read back. -/
theorem readBlock_append (block rest : Bytes) :
    readBlock block.length (block ++ rest) = .ok (block, rest) := by
  simp only [readBlock, List.take_left', List.drop_left', if_true]

/-- A block behind its length is read back if the length fits four bytes. -/
theorem readSizedBlock_append {block : Bytes} (h : block.length < 2 ^ 32) (rest : Bytes) :
    readSizedBlock (writeSizedBlock block ++ rest) = .ok (block, rest) := by
  have hsize : (UInt32.ofNat block.length).toNat = block.length := by
    rw [UInt32.toNat_ofNat', Nat.mod_eq_of_lt h]
  have hread : (read : Reader StreamFault UInt32)
      (Bytes.ofNat 4 block.length ++ (block ++ rest))
        = .ok (UInt32.ofNat block.length, block ++ rest) := by
    have hword := roundTrips_word (UInt32.ofNat block.length) _ (block ++ rest) rfl
    rwa [hsize] at hword
  rw [writeSizedBlock, List.append_assoc]
  refine Reading.bind_eq_ok.mpr ⟨_, _, hread, ?_⟩
  rw [hsize]
  exact readBlock_append block rest

/-! ## Tables -/

/-- Entries that round-trip one by one round-trip in a row. -/
theorem readEntries_append {α : Type} [Codec α] {as : List α}
    (h : ∀ a ∈ as, RoundTrips a) {bs : Bytes} (hwrite : writeEntries write as = .ok bs)
    (rest : Bytes) : readEntries as.length (bs ++ rest) = .ok (as, rest) := by
  induction as generalizing bs with
  | nil =>
    cases hwrite
    rfl
  | cons a as ih =>
    simp only [writeEntries, Reading.except_bind_eq_ok] at hwrite
    obtain ⟨first, hfirst, others, hothers, hbs⟩ := hwrite
    cases hbs
    have hread := h a (List.mem_cons_self ..) first (others ++ rest) hfirst
    have hrest := ih (fun b hb => h b (List.mem_cons_of_mem _ hb)) hothers
    rw [List.append_assoc]
    refine Reading.bind_eq_ok.mpr ⟨a, _, hread, Reading.bind_eq_ok.mpr ⟨as, rest, hrest, rfl⟩⟩

/-- A list behind its length is read back if its elements are. -/
theorem roundTrips_table {α : Type} [Codec α] {as : List α} (h : ∀ a ∈ as, RoundTrips a) :
    RoundTrips as := by
  intro bs rest hwrite
  simp only [write] at hwrite
  by_cases hlen : as.length < 65536
  · rw [if_pos hlen, Reading.except_bind_eq_ok] at hwrite
    obtain ⟨entries, hentries, hbs⟩ := hwrite
    cases hbs
    have hsize : (UInt16.ofNat as.length).toNat = as.length := by
      rw [UInt16.toNat_ofNat', Nat.mod_eq_of_lt hlen]
    have hread := read_short (UInt16.ofNat as.length) (entries ++ rest)
    rw [hsize] at hread
    rw [List.append_assoc]
    refine Reading.bind_eq_ok.mpr ⟨_, _, hread, ?_⟩
    rw [hsize]
    exact readEntries_append h hentries rest
  · rw [if_neg hlen] at hwrite
    cases hwrite

end Codec

/-! ## Parts of a class file -/

open Codec

/-- The body of an attribute is short enough for the number in front of it. -/
def Attribute.Short (a : Attribute) : Prop := a.info.length < 2 ^ 32

/-- An attribute is read back if its length fits four bytes. -/
theorem Attribute.roundTrips {a : Attribute} (h : a.Short) : RoundTrips a := by
  intro bs rest hwrite
  cases hwrite
  rw [List.append_assoc]
  refine Reading.bind_eq_ok.mpr ⟨_, _, read_short a.name _, ?_⟩
  exact Reading.bind_eq_ok.mpr ⟨_, _, readSizedBlock_append h rest, rfl⟩

/-- Attributes are read back together. -/
theorem roundTrips_attributes {as : List Attribute} (h : ∀ a ∈ as, a.Short) :
    RoundTrips as :=
  roundTrips_table fun a ha => Attribute.roundTrips (h a ha)

/-- Versions are read back. -/
theorem Version.roundTrips (v : Version) : RoundTrips v := by
  intro bs rest hwrite
  cases hwrite
  rw [List.append_assoc]
  exact Reading.seq_eq_ok.mpr ⟨_, _, Reading.map_eq_ok.mpr ⟨_, read_short v.minor _, rfl⟩,
    v.major, read_short v.major rest, rfl⟩

/-- Flags lose nothing, because they only hold named bits. -/
theorem AccessFlags.roundTrips {named : UInt16} (flags : AccessFlags named) :
    RoundTrips flags := by
  intro bs rest hwrite
  refine Reading.map_eq_ok.mpr ⟨flags.bits, roundTrips_short flags.bits bs rest hwrite, ?_⟩
  obtain ⟨bits, hnamed⟩ := flags
  simp only [truncate, hnamed]

/-- A field or a method is read back with its attributes. -/
theorem Member.roundTrips {named : UInt16} {m : Member named}
    (h : ∀ a ∈ m.attributes, a.Short) : RoundTrips m := by
  intro bs rest hwrite
  obtain ⟨flags, hflags, hwrite⟩ := Reading.except_bind_eq_ok.mp hwrite
  obtain ⟨attributes, hattributes, hwrite⟩ := Reading.except_bind_eq_ok.mp hwrite
  cases hwrite
  have hreadFlags := m.flags.roundTrips flags
    (Bytes.ofNat 2 m.name.toNat ++ (Bytes.ofNat 2 m.descriptor.toNat ++ (attributes ++ rest)))
    hflags
  have hreadAttributes := roundTrips_attributes h attributes rest hattributes
  simp only [List.append_assoc]
  refine Reading.seq_eq_ok.mpr ⟨_, _, Reading.seq_eq_ok.mpr ⟨_, _, Reading.seq_eq_ok.mpr
    ⟨_, _, Reading.map_eq_ok.mpr ⟨_, hreadFlags, rfl⟩, _, read_short m.name _, rfl⟩,
    _, read_short m.descriptor _, rfl⟩, _, hreadAttributes, rfl⟩

end Classdesk
