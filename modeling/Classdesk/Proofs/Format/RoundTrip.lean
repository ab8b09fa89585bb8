import Classdesk.Proofs.Format.Codecs
import Classdesk.Proofs.Format.PoolGrowth
import Classdesk.Proofs.Text.ModifiedUtf8

/-!
# Class files are read back

`parse_write`: a class that can be written is read back from what was written, with
anything behind it, and is the same in every part. The constant pool is the part with
something to show. It is stored as its constants alone, and reading pushes them again,
one by one; a well-formed pool is determined by its constants, so the slots come out the
same, and so does the map of shared constants, whatever order it was filled in.
-/

namespace Classdesk

open Codec

/-! ## Constants -/

/-- What succeeds does not depend on how faults are reported. -/
theorem mapFault_eq_ok {ε ε' α : Type} {f : ε → ε'} {r : Reader ε α} {bs : Bytes}
    {x : α × Bytes} : r.mapFault f bs = .ok x ↔ r bs = .ok x := by
  unfold Reader.mapFault
  cases r bs with
  | error e => simp [Except.mapError]
  | ok y => simp [Except.mapError]

/-- What is read back by itself is read back inside a class file. -/
private theorem stored_append {α : Type} [Codec α] {a : α} (h : RoundTrips a) {bs : Bytes}
    (hwrite : write a = .ok bs) (rest : Bytes) : stored (bs ++ rest) = .ok (a, rest) :=
  mapFault_eq_ok.mpr (h bs rest hwrite)

private theorem stored_tag (tag : UInt8) (rest : Bytes) :
    stored (tag :: rest) = .ok (tag, rest) := by
  have h := stored_append (roundTrips_byte tag) rfl rest
  rwa [show Bytes.ofNat 1 tag.toNat ++ rest = tag :: rest from by simp [Bytes.ofNat]] at h

/-- An index is read back from its two bytes. -/
theorem stored_index (i : UInt16) (rest : Bytes) :
    stored (Bytes.ofNat 2 i.toNat ++ rest) = .ok (i, rest) :=
  stored_append (roundTrips_short i) rfl rest

namespace Constant

private theorem readText_append {value : String} {bytes : Bytes}
    (hbytes : bytes = Text.ModifiedUtf8.encode value.toList) (hlen : bytes.length < 65536)
    (rest : Bytes) :
    readText (Bytes.ofNat 2 bytes.length ++ bytes ++ rest) = .ok (text value, rest) := by
  have hsize : (UInt16.ofNat bytes.length).toNat = bytes.length := by
    rw [UInt16.toNat_ofNat', Nat.mod_eq_of_lt hlen]
  have hindex := stored_index (UInt16.ofNat bytes.length) (bytes ++ rest)
  rw [hsize] at hindex
  rw [List.append_assoc]
  refine Reading.bind_eq_ok.mpr ⟨_, _, hindex, Reading.bind_eq_ok.mpr ⟨bytes, rest, ?_, ?_⟩⟩
  · rw [hsize]
    exact mapFault_eq_ok.mpr (readBlock_append bytes rest)
  · simp only [textOf, hbytes, Text.ModifiedUtf8.decode_encode, String.ofList_toList]
    rfl

/-- A constant with one part. -/
theorem map_stored {α : Type} [Codec α] (f : α → Constant) {a : α} (h : RoundTrips a)
    {bs : Bytes} (hwrite : Codec.write a = .ok bs) (rest : Bytes) :
    (f <$> stored) (bs ++ rest) = .ok (f a, rest) :=
  Reading.map_eq_ok.mpr ⟨a, stored_append h hwrite rest, rfl⟩

/-- A constant with two words. -/
theorem map_stored_pair (f : UInt16 → UInt16 → Constant) (a b : UInt16) (rest : Bytes) :
    (f <$> stored <*> stored) (write.pair a b ++ rest) = .ok (f a b, rest) := by
  rw [write.pair, List.append_assoc]
  exact Reading.seq_eq_ok.mpr
    ⟨f a, _, Reading.map_eq_ok.mpr ⟨a, stored_index a _, rfl⟩, b, stored_index b rest, rfl⟩

private theorem readHandle_append (kind : HandleKind) (member : ConstIndex) (rest : Bytes) :
    readHandle (kind.code :: (Bytes.ofNat 2 member.toNat ++ rest))
      = .ok (methodHandle kind member, rest) := by
  refine Reading.bind_eq_ok.mpr ⟨_, _, stored_tag kind.code _, ?_⟩
  simp only [HandleKind.ofCode?_code]
  exact map_stored _ (roundTrips_short member) rfl rest

/-- A constant that was written is read back. -/
theorem read_write {c : Constant} {bs : Bytes} (h : write c = .ok bs) (rest : Bytes) :
    read (bs ++ rest) = .ok (c, rest) := by
  cases c with
  | text value =>
    simp only [write] at h
    by_cases hlen : (Text.ModifiedUtf8.encode value.toList).length < 65536
    · rw [if_pos hlen] at h
      cases h
      exact Reading.bind_eq_ok.mpr ⟨_, _, stored_tag 1 _, readText_append rfl hlen rest⟩
    · rw [if_neg hlen] at h
      cases h
  | integer value =>
    cases h
    exact Reading.bind_eq_ok.mpr
      ⟨_, _, stored_tag _ _, map_stored _ (roundTrips_int value) rfl rest⟩
  | float bits =>
    cases h
    exact Reading.bind_eq_ok.mpr
      ⟨_, _, stored_tag _ _, map_stored _ (roundTrips_word bits) rfl rest⟩
  | long value =>
    cases h
    exact Reading.bind_eq_ok.mpr
      ⟨_, _, stored_tag _ _, map_stored _ (roundTrips_long value) rfl rest⟩
  | double bits =>
    cases h
    exact Reading.bind_eq_ok.mpr
      ⟨_, _, stored_tag _ _, map_stored _ (roundTrips_wide bits) rfl rest⟩
  | classRef i | string i | methodType i | moduleRef i | packageRef i =>
    cases h
    exact Reading.bind_eq_ok.mpr
      ⟨_, _, stored_tag _ _, map_stored _ (roundTrips_short i) rfl rest⟩
  | fieldRef i j | nameAndType i j | dynamic i j | invokeDynamic i j =>
    cases h
    exact Reading.bind_eq_ok.mpr ⟨_, _, stored_tag _ _, map_stored_pair _ i j rest⟩
  | methodRef owner shape isInterface =>
    cases h
    -- The flag is not stored by itself: it picks the tag.
    cases isInterface with
    | false =>
      exact Reading.bind_eq_ok.mpr
        ⟨_, _, stored_tag 10 _, map_stored_pair (methodRef · · false) owner shape rest⟩
    | true =>
      exact Reading.bind_eq_ok.mpr
        ⟨_, _, stored_tag 11 _, map_stored_pair (methodRef · · true) owner shape rest⟩
  | methodHandle kind member =>
    cases h
    exact Reading.bind_eq_ok.mpr ⟨_, _, stored_tag _ _, readHandle_append kind member rest⟩

end Constant

namespace Pool

/-! ## Pools -/

/-- Two pools with the same slots and the same entries in their maps. -/
structure Agrees (p q : Pool) : Prop where
  slots : p.slots = q.slots
  firstIndex : p.firstIndex.Equiv q.firstIndex

/-- A well-formed pool is determined by its slots. -/
theorem WellFormed.agrees {p q : Pool} (hp : WellFormed p) (hq : WellFormed q)
    (h : p.slots.toList = q.slots.toList) : Agrees p q := by
  refine ⟨Array.toList_inj.mp h, Std.HashMap.Equiv.of_forall_getElem?_eq fun c => ?_⟩
  rw [hp.first c, hq.first c, h]

/-- The constants of a pool are what its slots were laid out from. -/
theorem filterMap_slots (cs : List Constant) :
    (none :: cs.flatMap Constant.slots).filterMap id = cs := by
  have hone : ∀ c : Constant, c.slots.filterMap id = [c] := fun c => by
    simp [Constant.slots]
  rw [List.filterMap_cons_none rfl, List.filterMap_flatMap, funext hone]
  exact List.flatMap_singleton' cs

/-- Reading pushes the constants that were written, until the slots are full. -/
theorem readConstants_append {count : Nat} (hcount : count ≤ 65535) :
    ∀ (cs : List Constant) (fuel : Nat) (pool : Pool) {bs : Bytes},
      writeEntries Constant.write cs = .ok bs → cs.length ≤ fuel →
      pool.slots.size + (cs.flatMap Constant.slots).length = count → ∀ rest,
      ∃ after, readConstants count fuel pool (bs ++ rest) = .ok (after, rest)
        ∧ after.slots.toList = pool.slots.toList ++ cs.flatMap Constant.slots := by
  intro cs
  induction cs with
  | nil =>
    intro fuel pool bs hwrite _ hsize rest
    cases hwrite
    refine ⟨pool, ?_, by simp⟩
    cases fuel with
    | zero => rfl
    | succ fuel =>
      -- The slots are full, so reading stops with fuel left.
      have hfull : ¬ pool.slots.size < count := by simp at hsize; omega
      rw [readConstants, if_neg hfull]
      rfl
  | cons c cs ih =>
    intro fuel pool bs hwrite hfuel hsize rest
    simp only [writeEntries, Reading.except_bind_eq_ok] at hwrite
    obtain ⟨first, hfirst, others, hothers, hbs⟩ := hwrite
    cases hbs
    rw [List.flatMap_cons, List.length_append, Constant.length_slots] at hsize
    have hwidth := c.width_pos
    have hfits : pool.slots.size + c.width ≤ 65535 := by omega
    obtain ⟨next, hpush, hnext, -⟩ := push_fits hfits
    obtain ⟨f, rfl⟩ : ∃ f, fuel = f + 1 := ⟨fuel - 1, by simp at hfuel; omega⟩
    have hsize' : next.slots.size + (cs.flatMap Constant.slots).length = count := by
      rw [← Array.length_toList, hnext, List.length_append, Constant.length_slots,
        Array.length_toList]
      omega
    obtain ⟨after, hread, hafter⟩ := ih f next hothers (by simpa using hfuel) hsize' rest
    refine ⟨after, ?_, by rw [hafter, hnext, List.flatMap_cons, List.append_assoc]⟩
    rw [readConstants, if_pos (by omega), List.append_assoc]
    refine Reading.bind_eq_ok.mpr ⟨c, _, Constant.read_write hfirst _, ?_⟩
    simp only [hpush]
    exact hread

/-- Every constant takes a slot. -/
theorem length_le_length_flatMap_slots (cs : List Constant) :
    cs.length ≤ (cs.flatMap Constant.slots).length := by
  induction cs with
  | nil => rfl
  | cons c cs ih =>
    have hwidth := c.width_pos
    rw [List.flatMap_cons, List.length_append, Constant.length_slots, List.length_cons]
    omega

/-- A well-formed pool that was written is read back. -/
theorem read_write {pool : Pool} (h : WellFormed pool) {bs : Bytes}
    (hwrite : pool.write = .ok bs) (rest : Bytes) :
    ∃ after, Pool.read (bs ++ rest) = .ok (after, rest) ∧ Agrees pool after := by
  obtain ⟨cs, hcs⟩ := h.laidOut
  obtain ⟨entries, hentries, hbs⟩ := Reading.except_bind_eq_ok.mp hwrite
  cases hbs
  rw [hcs, filterMap_slots] at hentries
  have hsize : pool.slots.size = 1 + (cs.flatMap Constant.slots).length := by
    rw [← Array.length_toList, hcs, List.length_cons, Nat.add_comm]
  have hcount : (UInt16.ofNat pool.slots.size).toNat = pool.slots.size := by
    have hle := h.size_le
    rw [UInt16.toNat_ofNat', Nat.mod_eq_of_lt (by omega)]
  -- The count bounds the number of slots, and so the number of constants.
  have hfuel := length_le_length_flatMap_slots cs
  obtain ⟨after, hread, hafter⟩ := readConstants_append h.size_le cs
    pool.slots.size empty hentries (by omega) hsize.symm rest
  have hslots : pool.slots.toList = after.slots.toList := by
    rw [hafter, hcs]
    rfl
  refine ⟨after, ?_, h.agrees (readConstants_wellFormed _ hread empty_wellFormed) hslots⟩
  have hindex := stored_index (UInt16.ofNat pool.slots.size) (entries ++ rest)
  rw [hcount] at hindex
  rw [List.append_assoc]
  refine Reading.bind_eq_ok.mpr ⟨_, _, hindex, ?_⟩
  rw [hcount]
  refine Reading.bind_eq_ok.mpr ⟨_, _, hread, ?_⟩
  have hfull : after.slots.size = pool.slots.size := by
    rw [← Array.length_toList, ← hslots, Array.length_toList]
  rw [if_pos hfull]
  rfl

end Pool

/-! ## Classes -/

namespace ClassFile

/-- All attributes of a class: its own, and those of its fields and methods. -/
def allAttributes (c : ClassFile) : List Attribute :=
  c.fields.flatMap Member.attributes ++ c.methods.flatMap Member.attributes ++ c.attributes

/-- Two classes that are the same in every part. -/
structure Agrees (c d : ClassFile) : Prop where
  version : c.version = d.version
  pool : c.pool.Agrees d.pool
  flags : c.flags = d.flags
  thisClass : c.thisClass = d.thisClass
  superClass : c.superClass = d.superClass
  interfaces : c.interfaces = d.interfaces
  fields : c.fields = d.fields
  methods : c.methods = d.methods
  attributes : c.attributes = d.attributes

/-- A written class is read back from the front of any bytes with the pool that is read
in it, and the rest is left. -/
theorem read_write_with {c : ClassFile} {P : Pool → Prop}
    (hpool : ∀ bs, c.pool.write = .ok bs → ∀ rest, ∃ found,
      Pool.read (bs ++ rest) = .ok (found, rest) ∧ P found)
    (hshort : ∀ a ∈ c.allAttributes, a.Short) {b : Bytes} (hwrite : c.write = .ok b)
    (t : Bytes) :
    ∃ pool, read (b ++ t) = .ok ({ c with pool }, t) ∧ P pool := by
  simp only [write, Reading.except_bind_eq_ok] at hwrite
  obtain ⟨version, hversion, pool, hpoolBytes, flags, hflags, this, hthis, super, hsuper,
    interfaces, hinterfaces, fields, hfields, methods, hmethods, attributes, hattributes,
    hb⟩ := hwrite
  cases hb
  simp only [allAttributes, List.mem_append, List.mem_flatMap] at hshort
  have hfieldsBack : RoundTrips c.fields := roundTrips_table fun m hm =>
    Member.roundTrips fun a ha => hshort a (.inl (.inl ⟨m, hm, ha⟩))
  have hmethodsBack : RoundTrips c.methods := roundTrips_table fun m hm =>
    Member.roundTrips fun a ha => hshort a (.inl (.inr ⟨m, hm, ha⟩))
  have hattributesBack : RoundTrips c.attributes :=
    roundTrips_attributes fun a ha => hshort a (.inr ha)
  have hinterfacesBack : RoundTrips c.interfaces :=
    roundTrips_table fun i _ => roundTrips_short i
  simp only [List.append_assoc]
  obtain ⟨found, hfound, hagrees⟩ := hpool _ hpoolBytes
    (flags ++ (this ++ (super ++ (interfaces ++ (fields ++ (methods ++ (attributes ++ t)))))))
  refine ⟨found, ?_, hagrees⟩
  -- From here on the reader is followed part by part, each from where the last stopped.
  refine Reading.bind_eq_ok.mpr ⟨_, _, stored_append (roundTrips_word magic) rfl _, ?_⟩
  refine Reading.refuse_eq_ok.mpr ⟨fun h => h rfl, ?_⟩
  refine Reading.bind_eq_ok.mpr ⟨_, _, stored_append c.version.roundTrips hversion _, ?_⟩
  refine Reading.bind_eq_ok.mpr ⟨_, _, hfound, ?_⟩
  refine Reading.bind_eq_ok.mpr ⟨_, _, stored_append c.flags.roundTrips hflags _, ?_⟩
  refine Reading.bind_eq_ok.mpr ⟨_, _, stored_append (roundTrips_short _) hthis _, ?_⟩
  refine Reading.bind_eq_ok.mpr ⟨_, _, stored_append (roundTrips_short _) hsuper _, ?_⟩
  refine Reading.bind_eq_ok.mpr ⟨_, _, stored_append hinterfacesBack hinterfaces _, ?_⟩
  refine Reading.bind_eq_ok.mpr ⟨_, _, stored_append hfieldsBack hfields _, ?_⟩
  refine Reading.bind_eq_ok.mpr ⟨_, _, stored_append hmethodsBack hmethods _, ?_⟩
  refine Reading.bind_eq_ok.mpr ⟨_, _, stored_append hattributesBack hattributes _, ?_⟩
  rfl

/-- A class with a well-formed pool is read back with a pool that agrees. -/
theorem read_write {c : ClassFile} (hpool : c.pool.WellFormed)
    (hshort : ∀ a ∈ c.allAttributes, a.Short) {b : Bytes} (hwrite : c.write = .ok b)
    (t : Bytes) :
    ∃ pool, read (b ++ t) = .ok ({ c with pool }, t) ∧ c.pool.Agrees pool :=
  read_write_with (fun _ hbytes rest => Pool.read_write hpool hbytes rest) hshort hwrite t

/-- **Reading undoes writing**: what was written for a class is read back, whatever
follows, as a class that is the same in every part. -/
theorem parse_write {c : ClassFile} (hpool : c.pool.Reachable)
    (hshort : ∀ a ∈ c.allAttributes, a.Short) {b : Bytes} (hwrite : c.write = .ok b)
    (t : Bytes) :
    ∃ d, parse (b ++ t) = .ok d ∧ Agrees c d := by
  obtain ⟨pool, hread, hagrees⟩ := read_write hpool.wellFormed hshort hwrite t
  refine ⟨{ c with pool }, ?_, ⟨rfl, hagrees, rfl, rfl, rfl, rfl, rfl, rfl, rfl⟩⟩
  rw [parse, hread]
  rfl

/-- A stored pool with a class, a long in two slots, a float that is no number and the
name and type of a field. -/
def counterPool : Bytes :=
  [0, 8, 1, 0, 1, 65, 7, 0, 1, 5, 0, 0, 0, 0, 0, 0, 0, 7, 4, 127, 192, 0, 0,
    1, 0, 1, 102, 1, 0, 1, 74]

/-- A class with one field that has an attribute. -/
def counter (pool : Pool) : ClassFile where
  version := Version.java8
  pool := pool
  flags := AccessFlags.truncate _ 0x21
  thisClass := 2
  superClass := 0
  interfaces := [2]
  fields := [⟨AccessFlags.truncate _ 2, 6, 7, [⟨1, [0, 3]⟩]⟩]
  methods := []
  attributes := [⟨6, []⟩]

/-- A class with an interface, a field and attributes is read back, with bytes behind it. -/
theorem counter_read_back :
    ∃ pool b, Pool.read counterPool = .ok (pool, []) ∧ (counter pool).write = .ok b
      ∧ ∃ d, parse (b ++ [0, 1]) = .ok d ∧ Agrees (counter pool) d := by
  obtain ⟨pool, hpool, hslots⟩ : ∃ pool, Pool.read counterPool = .ok (pool, [])
      ∧ pool.slots = #[none, some (.text "A"), some (.classRef 1), some (.long 7), none,
          some (.float 0x7FC00000), some (.text "f"), some (.text "J")] := ⟨_, rfl, rfl⟩
  obtain ⟨b, hwrite⟩ : ∃ b, (counter pool).write = .ok b := by
    simp only [write, Pool.write, counter, hslots]
    exact ⟨_, rfl⟩
  have hshort : ∀ a ∈ (counter pool).allAttributes, a.Short := by
    intro a ha
    simp only [allAttributes, counter, List.flatMap_cons, List.flatMap_nil, List.append_nil,
      List.cons_append, List.nil_append, List.mem_cons, List.not_mem_nil, or_false] at ha
    rcases ha with rfl | rfl
    · simp [Attribute.Short]
    · simp [Attribute.Short]
  have hreach : (counter pool).pool.Reachable :=
    ⟨pool, .inr ⟨counterPool, [], hpool⟩, .refl⟩
  exact ⟨pool, b, hpool, hwrite, parse_write hreach hshort hwrite [0, 1]⟩

end ClassFile

end Classdesk
