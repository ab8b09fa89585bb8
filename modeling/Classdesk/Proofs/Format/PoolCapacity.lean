import Classdesk.Proofs.Format.PoolSharing
import Classdesk.Proofs.Format.RoundTrip

/-!
# The slots of a pool, and how many there can be

A pool numbers its slots with 16 bits and counts them with 16 bits, so it must never
have more than 65535. Slot 0 is unused, and so is the slot behind a wide constant; a
constant starts in every other slot. `slots_exact` says this of every pool that can come
about, and that the limit is the only one: a constant is refused exactly if its slots
would go beyond it, and a pool is refused by `write` exactly if one of its texts is too
long for its own 16-bit length.

Reading keeps to the same limit by other means. It pushes constants while the declared
number of slots is not reached, and a wide constant may overshoot that number by one:

> `read_row_iff`: a pool is read exactly if the constants behind the count take one slot
> less than it says, slot 0 being the one that is missing.
-/

namespace Classdesk

open Codec

/-! ## Wide constants -/

/-- Constants of eight bytes, which take two slots. -/
def Constant.isWide : Constant → Bool
  | long _ | double _ => true
  | _ => false

private theorem Constant.slots_of_isWide {c : Constant} (h : c.isWide = true) :
    c.slots = [some c, none] := by
  cases c <;> first | rfl | cases h

private theorem Constant.slots_of_not_isWide {c : Constant} (h : ¬ c.isWide = true) :
    c.slots = [some c] := by
  cases c <;> first | rfl | exact absurd rfl h

private theorem Constant.width_of_isWide {c : Constant} (h : c.isWide = true) : c.width = 2 := by
  rw [← c.length_slots, c.slots_of_isWide h]
  rfl

/-- How many slots some constants take. -/
def Constant.totalWidth (cs : List Constant) : Nat := (cs.map Constant.width).sum

private theorem Constant.totalWidth_cons (c : Constant) (cs : List Constant) :
    totalWidth (c :: cs) = c.width + totalWidth cs := by
  rw [totalWidth, List.map_cons, List.sum_cons, totalWidth]

/-- Constants one after the other take as many slots as they are wide together. -/
private theorem Constant.length_flatMap_slots (cs : List Constant) :
    (cs.flatMap Constant.slots).length = totalWidth cs := by
  rw [List.length_flatMap, totalWidth]
  congr 1
  exact List.map_congr_left fun c _ => c.length_slots

/-- Among the slots of some constants, the ones without a constant are those behind a wide
one. -/
theorem Constant.getElem?_slots_eq_none (cs : List Constant) (j : Nat) :
    (cs.flatMap Constant.slots)[j]? = some none
      ↔ ∃ i c, (cs.flatMap Constant.slots)[i]? = some (some c) ∧ c.isWide = true
          ∧ j = i + 1 := by
  induction cs generalizing j with
  | nil => simp
  | cons c cs ih =>
    rw [List.flatMap_cons]
    by_cases hc : c.isWide = true
    · rw [c.slots_of_isWide hc]
      match j with
      | 0 => simp
      | 1 =>
        simp only [List.cons_append, List.getElem?_cons_succ, List.getElem?_cons_zero, true_iff]
        exact ⟨0, c, rfl, hc, rfl⟩
      | j + 2 =>
        simp only [List.cons_append, List.nil_append, List.getElem?_cons_succ, ih]
        constructor
        · intro hbehind
          obtain ⟨i, d, hi, hd, rfl⟩ := hbehind
          exact ⟨i + 2, d, hi, hd, rfl⟩
        · intro hbehind
          obtain ⟨i, d, hi, hd, hj⟩ := hbehind
          match i with
          | 0 => omega
          | 1 => cases hi
          | i + 2 => exact ⟨i, d, hi, hd, by omega⟩
    · rw [c.slots_of_not_isWide hc]
      match j with
      | 0 => simp
      | j + 1 =>
        simp only [List.cons_append, List.nil_append, List.getElem?_cons_succ, ih]
        constructor
        · intro hbehind
          obtain ⟨i, d, hi, hd, rfl⟩ := hbehind
          exact ⟨i + 1, d, hi, hd, rfl⟩
        · intro hbehind
          obtain ⟨i, d, hi, hd, hj⟩ := hbehind
          match i with
          | 0 =>
            cases hi
            exact absurd hd hc
          | i + 1 => exact ⟨i, d, hi, hd, by omega⟩

namespace Pool

/-- In a well-formed pool, slot 0 and the slots behind wide constants are unused. -/
theorem WellFormed.unused_iff {pool : Pool} (h : WellFormed pool) (j : Nat) :
    pool.slots[j]? = some none
      ↔ j = 0 ∨ ∃ i c, pool.slots[i]? = some (some c) ∧ c.isWide = true ∧ j = i + 1 := by
  obtain ⟨cs, hcs⟩ := h.laidOut
  simp only [slots_getElem?, hcs]
  match j with
  | 0 => simp
  | j + 1 =>
    rw [List.getElem?_cons_succ, Constant.getElem?_slots_eq_none]
    constructor
    · intro hbehind
      obtain ⟨i, c, hi, hc, rfl⟩ := hbehind
      exact .inr ⟨i + 1, c, hi, hc, rfl⟩
    · intro hunused
      rcases hunused with hj | ⟨i, c, hi, hc, hj⟩
      · omega
      · match i with
        | 0 => cases hi
        | i + 1 => exact ⟨i, c, hi, hc, by omega⟩

/-- A constant that fits gets the next index, and the pool is longer by its slots. -/
theorem push_size {c : Constant} {pool : Pool} (h : pool.slots.size + c.width ≤ 65535) :
    ∃ after, push c pool = (.ok (UInt16.ofNat pool.slots.size), after)
      ∧ after.slots.size = pool.slots.size + c.width := by
  obtain ⟨after, hpush, hslots, -⟩ := push_fits h
  refine ⟨after, hpush, ?_⟩
  rw [← Array.length_toList, hslots, List.length_append, c.length_slots, Array.length_toList]

private theorem WellFormed.size_pos {pool : Pool} (h : WellFormed pool) : 0 < pool.slots.size := by
  obtain ⟨cs, hcs⟩ := h.laidOut
  rw [← Array.length_toList, hcs]
  exact Nat.succ_pos _

/-! ## Writing -/

/-- A text is short enough to be stored. -/
def FitsLength (value : String) : Prop :=
  (Text.ModifiedUtf8.encode value.toList).length ≤ 65535

/-- Only a text can be too long to be written. -/
private theorem write_constant_iff (c : Constant) :
    (∃ bs, c.write = .ok bs) ↔ ∀ value, c = .text value → FitsLength value := by
  cases c with
  | text value =>
    simp only [Constant.write, FitsLength, Constant.text.injEq, forall_eq']
    by_cases hlen : (Text.ModifiedUtf8.encode value.toList).length < 65536
    · simp only [hlen, if_true, Except.ok.injEq, exists_eq', true_iff]
      omega
    · simp only [hlen, if_false, reduceCtorEq, exists_false, false_iff]
      omega
  | _ => simp [Constant.write]

/-- Entries can be written in a row exactly if each of them can. -/
theorem writeEntries_iff {α : Type} (form : α → Except StreamFault Bytes) (as : List α) :
    (∃ bs, writeEntries form as = .ok bs) ↔ ∀ a ∈ as, ∃ bs, form a = .ok bs := by
  induction as with
  | nil => simp [writeEntries]
  | cons a as ih =>
    simp only [writeEntries, Reading.except_bind_eq_ok, List.forall_mem_cons, ← ih]
    constructor
    · intro hwrites
      obtain ⟨_, first, hfirst, others, hothers, -⟩ := hwrites
      exact ⟨⟨first, hfirst⟩, others, hothers⟩
    · intro hwrites
      obtain ⟨⟨first, hfirst⟩, others, hothers⟩ := hwrites
      exact ⟨_, first, hfirst, others, hothers, rfl⟩

/-- The constants of a pool are those that some slot holds. -/
theorem mem_constants_iff (pool : Pool) (c : Constant) :
    c ∈ pool.slots.toList.filterMap id ↔ pool.Holds c := by
  rw [List.mem_filterMap]
  simp only [id_eq, exists_eq_right, List.mem_iff_getElem?, Holds, slots_getElem?]

/-- A pool can be written exactly if each of its texts can be stored. -/
theorem write_iff (pool : Pool) :
    (∃ bs, pool.write = .ok bs) ↔ ∀ value, pool.Holds (.text value) → FitsLength value := by
  have hparts : (∃ bs, pool.write = .ok bs)
      ↔ ∃ bs, writeEntries Constant.write (pool.slots.toList.filterMap id) = .ok bs := by
    simp only [write, Reading.except_bind_eq_ok]
    constructor
    · intro hwrites
      obtain ⟨_, entries, hentries, -⟩ := hwrites
      exact ⟨entries, hentries⟩
    · intro hwrites
      obtain ⟨entries, hentries⟩ := hwrites
      exact ⟨_, entries, hentries, rfl⟩
  rw [hparts, writeEntries_iff]
  simp only [mem_constants_iff, write_constant_iff]
  constructor
  · intro h value hvalue
    exact h _ hvalue value rfl
  · intro h c hc value hvalue
    exact h value (hvalue ▸ hc)

/-! ## Reading -/

/-- Constants that stand one after the other at the front of some bytes. -/
inductive Row : Bytes → List Constant → Bytes → Prop
  | nil (bs : Bytes) : Row bs [] bs
  | cons {bs mid rest : Bytes} {c : Constant} {cs : List Constant}
      (first : Constant.read bs = .ok (c, mid)) (others : Row mid cs rest) :
      Row bs (c :: cs) rest

/-- Whatever was read stood in a row. -/
theorem row_of_readConstants {count : Nat} :
    ∀ (fuel : Nat) {pool after : Pool} {bs rest : Bytes},
      readConstants count fuel pool bs = .ok (after, rest) →
      ∃ cs, Row bs cs rest
        ∧ after.slots.toList = pool.slots.toList ++ cs.flatMap Constant.slots := by
  intro fuel
  induction fuel with
  | zero =>
    intro pool after bs rest h
    cases h
    exact ⟨[], .nil bs, by simp⟩
  | succ fuel ih =>
    intro pool after bs rest h
    rw [readConstants] at h
    by_cases hmore : pool.slots.size < count
    · rw [if_pos hmore, Reading.bind_eq_ok] at h
      obtain ⟨c, mid, hc, h⟩ := h
      cases hpush : push c pool with
      | mk result next =>
        rw [hpush] at h
        cases result with
        | error e => exact absurd h Reading.throw_eq_ok
        | ok i =>
          obtain ⟨cs, hrow, hslots⟩ := ih h
          refine ⟨c :: cs, .cons hc hrow, ?_⟩
          rw [hslots, (push_ok hpush).2, List.flatMap_cons, List.append_assoc]
    · rw [if_neg hmore] at h
      cases h
      exact ⟨[], .nil bs, by simp⟩

/-- A constant at the front of the bytes is pushed while there is room for it. -/
theorem readConstants_push {count fuel : Nat} {pool : Pool} {bs mid : Bytes} {c : Constant}
    (hmore : pool.slots.size < count) (hc : Constant.read bs = .ok (c, mid)) :
    readConstants count (fuel + 1) pool bs =
      match push c pool with
      | (.ok _, next) => readConstants count fuel next mid
      | (.error fault, _) => .error fault := by
  rw [readConstants, if_pos hmore, Reading.bind_run, hc]
  simp only [Except.bind]
  cases push c pool with
  | mk result next =>
    cases result with
    | ok i => rfl
    | error fault => rfl

/-- Reading goes along a row that does not go beyond the declared number of slots. -/
theorem readConstants_row {count : Nat} (hcount : count ≤ 65535) {bs mid : Bytes}
    {cs : List Constant} (hrow : Row bs cs mid) :
    ∀ (fuel : Nat) (pool : Pool), pool.slots.size + Constant.totalWidth cs ≤ count →
      ∃ next : Pool, next.slots.size = pool.slots.size + Constant.totalWidth cs
        ∧ readConstants count (cs.length + fuel) pool bs
          = readConstants count fuel next mid := by
  induction hrow with
  | nil bs =>
    intro fuel pool _
    exact ⟨pool, rfl, by rw [List.length_nil, Nat.zero_add]⟩
  | @cons bs mid rest c cs hfirst _ ih =>
    intro fuel pool hroom
    have hwidth := c.width_pos
    rw [Constant.totalWidth_cons] at hroom ⊢
    obtain ⟨after, hpush, hsize⟩ := push_size (show pool.slots.size + c.width ≤ 65535 by omega)
    obtain ⟨next, hnext, hread⟩ := ih fuel after (by omega)
    refine ⟨next, by omega, ?_⟩
    rw [List.length_cons, Nat.add_right_comm, readConstants_push (by omega) hfirst, hpush]
    exact hread

/-- Reading stops once the declared number of slots is reached. -/
theorem readConstants_full {count : Nat} {pool : Pool} (h : count ≤ pool.slots.size)
    (fuel : Nat) (bs : Bytes) : readConstants count fuel pool bs = .ok (pool, bs) := by
  cases fuel with
  | zero => rfl
  | succ fuel =>
    rw [readConstants, if_neg (by omega)]
    rfl

/-- What is read behind the count. -/
theorem read_behind_count (count : UInt16) (body : Bytes) :
    Pool.read (Bytes.ofNat 2 count.toNat ++ body)
      = (readConstants count.toNat count.toNat empty body).bind fun (pool, rest) =>
          if pool.slots.size = count.toNat then .ok (pool, rest) else .error .poolFull := by
  rw [Pool.read, Reading.bind_run, stored_index]
  simp only [Except.bind, Reading.bind_run]
  cases readConstants count.toNat count.toNat empty body with
  | error fault => rfl
  | ok found =>
    obtain ⟨pool, rest⟩ := found
    by_cases hsize : pool.slots.size = count.toNat
    · simp only [hsize, if_true]
      rfl
    · simp only [hsize, if_false]
      rfl

/-- A pool is read if its constants are and there are as many slots as declared. -/
theorem read_eq_ok {count : UInt16} {body rest : Bytes} {pool : Pool} :
    Pool.read (Bytes.ofNat 2 count.toNat ++ body) = .ok (pool, rest)
      ↔ readConstants count.toNat count.toNat empty body = .ok (pool, rest)
        ∧ pool.slots.size = count.toNat := by
  rw [read_behind_count]
  constructor
  · intro hpool
    obtain ⟨⟨found, rest'⟩, hread, hcheck⟩ := Reading.except_bind_eq_ok.mp hpool
    by_cases hsize : found.slots.size = count.toNat
    · simp only [hsize, if_true, Except.ok.injEq, Prod.mk.injEq] at hcheck
      obtain ⟨rfl, rfl⟩ := hcheck
      exact ⟨hread, hsize⟩
    · simp only [hsize, if_false, reduceCtorEq] at hcheck
  · intro hparts
    obtain ⟨hread, hsize⟩ := hparts
    exact Reading.except_bind_eq_ok.mpr ⟨(pool, rest), hread, if_pos hsize⟩

/-- From an empty pool, reading gets to the end of a row with a round to spare. -/
theorem readConstants_row_empty {count : UInt16} {body mid : Bytes} {cs : List Constant}
    (hrow : Row body cs mid) (hroom : 1 + Constant.totalWidth cs ≤ count.toNat) :
    ∃ (fuel : Nat) (next : Pool), next.slots.size = 1 + Constant.totalWidth cs
      ∧ readConstants count.toNat count.toNat empty body
        = readConstants count.toNat (fuel + 1) next mid := by
  have hcount : count.toNat ≤ 65535 := Nat.le_of_lt_succ count.toNat_lt
  have hlength := length_le_length_flatMap_slots cs
  rw [Constant.length_flatMap_slots] at hlength
  obtain ⟨fuel, hfuel⟩ : ∃ fuel, count.toNat = cs.length + (fuel + 1) :=
    ⟨count.toNat - cs.length - 1, by omega⟩
  obtain ⟨next, hnext, hread⟩ := readConstants_row hcount hrow (fuel + 1) empty hroom
  rw [← hfuel] at hread
  exact ⟨fuel, next, hnext, hread⟩

/-- A pool is read exactly if the constants behind the count take all slots but slot 0. -/
theorem read_row_iff (count : UInt16) (body rest : Bytes) :
    (∃ pool, Pool.read (Bytes.ofNat 2 count.toNat ++ body) = .ok (pool, rest))
      ↔ ∃ cs, Row body cs rest ∧ 1 + Constant.totalWidth cs = count.toNat := by
  constructor
  · intro hpool
    obtain ⟨pool, hpool⟩ := hpool
    obtain ⟨hread, hsize⟩ := read_eq_ok.mp hpool
    obtain ⟨cs, hrow, hslots⟩ := row_of_readConstants _ hread
    refine ⟨cs, hrow, ?_⟩
    rw [← hsize, ← Array.length_toList, hslots, List.length_append,
      Constant.length_flatMap_slots]
    rfl
  · intro hrow
    obtain ⟨cs, hrow, hwidth⟩ := hrow
    obtain ⟨fuel, next, hnext, hread⟩ := readConstants_row_empty hrow (Nat.le_of_eq hwidth)
    have hsize : next.slots.size = count.toNat := hnext.trans hwidth
    rw [readConstants_full (Nat.le_of_eq hsize.symm)] at hread
    exact ⟨next, read_eq_ok.mpr ⟨hread, hsize⟩⟩

/-- A wide constant in the last declared slot is refused. -/
theorem read_overrun {count : UInt16} {body mid rest : Bytes} {cs : List Constant}
    {c : Constant} (hrow : Row body cs mid) (hc : Constant.read mid = .ok (c, rest))
    (hwide : c.isWide = true) (hlast : 1 + Constant.totalWidth cs + 1 = count.toNat) :
    Pool.read (Bytes.ofNat 2 count.toNat ++ body) = .error .poolFull := by
  have hcount := count.toNat_lt
  have hwidth := c.width_of_isWide hwide
  have hroom : 1 + Constant.totalWidth cs ≤ count.toNat := by omega
  obtain ⟨fuel, next, hnext, hread⟩ := readConstants_row_empty hrow hroom
  rw [read_behind_count, hread, readConstants_push (by omega) hc]
  -- The last slot may be the last of all, and then the push fails already.
  rcases Nat.lt_or_ge 65535 (next.slots.size + c.width) with hfull | hfits
  · rw [push_full hfull]
    rfl
  · obtain ⟨after, hpush, hafter⟩ := push_size hfits
    rw [hpush]
    show ((readConstants count.toNat fuel after rest).bind _) = _
    rw [readConstants_full (by omega)]
    exact if_neg (by omega)

/-- Without slots there is no room for slot 0. -/
theorem read_zero (body : Bytes) :
    Pool.read (Bytes.ofNat 2 0 ++ body) = .error .poolFull := by
  have h := read_behind_count 0 body
  rw [readConstants_full (show UInt16.toNat 0 ≤ empty.slots.size from Nat.zero_le _)] at h
  exact h

/-- The count is the number in the first two bytes. -/
theorem stored_count {bs rest : Bytes} {count : UInt16} (h : stored bs = .ok (count, rest)) :
    bs = Bytes.ofNat 2 count.toNat ++ rest := by
  obtain ⟨n, hn, rfl⟩ := Reading.map_eq_ok.mp (mapFault_eq_ok.mp h)
  obtain ⟨hlt, hbs⟩ := readWord_eq_ok.mp hn
  have hword : n < 2 ^ 16 := by omega
  rw [UInt16.toNat_ofNat', Nat.mod_eq_of_lt hword]
  exact hbs

private theorem toNat_ofNat_two {n : Nat} (h : n ≤ 65535) : Bytes.toNat (Bytes.ofNat 2 n) = n := by
  rw [Bytes.toNat_ofNat, Nat.mod_eq_of_lt (by omega)]

/-- A pool that was read has as many slots as the first two bytes say. -/
theorem slotCount_of_read {bs rest : Bytes} {pool : Pool}
    (h : Pool.read bs = .ok (pool, rest)) : Bytes.toNat (bs.take 2) = pool.slotCount := by
  have hparts := h
  rw [Pool.read, Reading.bind_eq_ok] at hparts
  obtain ⟨count, body, hcount, -⟩ := hparts
  have hbs := stored_count hcount
  rw [hbs] at h ⊢
  have hlt : count.toNat ≤ 65535 := Nat.le_of_lt_succ count.toNat_lt
  rw [List.take_left' (Bytes.length_ofNat 2 _), toNat_ofNat_two hlt]
  exact (read_eq_ok.mp h).2.symm

/-! ## The limits together -/

/-- The layout of a pool's slots, and what fits into them. -/
structure SlotsExact (pool : Pool) : Prop where
  /-- Slot 0 and the slot behind each wide constant are unused, and no other slot is. -/
  unused_iff : ∀ j, pool.slots[j]? = some none
    ↔ j = 0 ∨ ∃ i c, pool.slots[i]? = some (some c) ∧ c.isWide = true ∧ j = i + 1
  slotCount_pos : 1 ≤ pool.slotCount
  slotCount_le : pool.slotCount ≤ 65535
  /-- No position loses digits as an index, and neither does the count as it is stored. -/
  index_exact : ∀ j < pool.slotCount, (UInt16.ofNat j).toNat = j
  count_exact : Bytes.toNat (Bytes.ofNat 2 pool.slotCount) = pool.slotCount
  /-- A constant is refused exactly if its slots would go beyond the limit. -/
  full_iff : ∀ c, (push c pool).1 = .error .poolFull ↔ 65535 < pool.slotCount + c.width
  /-- A constant that is not refused gets the index behind the last slot. -/
  next_index : ∀ c, pool.slotCount + c.width ≤ 65535 → ∃ (i : ConstIndex) (after : Pool),
    push c pool = (.ok i, after) ∧ i.toNat = pool.slotCount
      ∧ after.slotCount = pool.slotCount + c.width
  /-- A constant that an insertion does not find is pushed. -/
  pushes_new : ∀ c, (c.isShared = true → ¬ pool.Holds c) → intern c pool = push c pool
  writes_iff : (∃ bs, pool.write = .ok bs)
    ↔ ∀ value, pool.Holds (.text value) → FitsLength value

/-- A constant is refused exactly if its slots do not fit. -/
private theorem push_full_iff (c : Constant) (pool : Pool) :
    (push c pool).1 = .error .poolFull ↔ 65535 < pool.slotCount + c.width := by
  unfold slotCount
  rcases Nat.lt_or_ge 65535 (pool.slots.size + c.width) with hfull | hfits
  · rw [push_full hfull]
    exact ⟨fun _ => hfull, fun _ => rfl⟩
  · obtain ⟨after, hpush, -⟩ := push_size hfits
    rw [hpush]
    constructor
    · intro h
      cases h
    · intro h
      omega

/-- What is not shared, or not there, is pushed. -/
private theorem WellFormed.pushes_new {pool : Pool} (h : WellFormed pool) {c : Constant}
    (hnew : c.isShared = true → ¬ pool.Holds c) : intern c pool = push c pool := by
  by_cases hc : c.isShared = true
  · exact intern_of_not_holds h (hnew hc)
  · have hnone : pool.firstIndex[c]? = none := by
      rw [h.first c, if_neg hc]
    simp only [intern, hnone]

/-- Well-formed pools are laid out exactly. -/
theorem WellFormed.slotsExact {pool : Pool} (h : WellFormed pool) : SlotsExact pool where
  unused_iff := h.unused_iff
  slotCount_pos := h.size_pos
  slotCount_le := h.size_le
  index_exact _ hj := h.toNat_ofNat (Nat.le_of_lt hj)
  count_exact := toNat_ofNat_two h.size_le
  full_iff c := push_full_iff c pool
  next_index c hfits := by
    obtain ⟨after, hpush, hafter⟩ := push_size hfits
    exact ⟨_, after, hpush, h.toNat_ofNat (Nat.le_refl _), hafter⟩
  pushes_new _ := h.pushes_new
  writes_iff := write_iff pool

/-- Which bytes are read to a pool, by what stands behind the count. -/
structure ReadsExact (count : UInt16) (body : Bytes) : Prop where
  /-- The constants have to take all slots but slot 0. -/
  reads_iff : ∀ rest, (∃ pool, Pool.read (Bytes.ofNat 2 count.toNat ++ body) = .ok (pool, rest))
    ↔ ∃ cs, Row body cs rest ∧ 1 + Constant.totalWidth cs = count.toNat
  zero_refused : count = 0 →
    Pool.read (Bytes.ofNat 2 count.toNat ++ body) = .error .poolFull
  /-- A wide constant must not start in the last slot. -/
  overrun_refused : ∀ cs mid c rest, Row body cs mid → Constant.read mid = .ok (c, rest) →
    c.isWide = true → 1 + Constant.totalWidth cs + 1 = count.toNat →
    Pool.read (Bytes.ofNat 2 count.toNat ++ body) = .error .poolFull

/-- **The slots of a pool are laid out and counted exactly**, however the pool came about,
and reading accepts no other number of slots than the declared one. -/
theorem slots_exact :
    (∀ pool, Reachable pool → SlotsExact pool)
      ∧ (∀ bs pool rest, Pool.read bs = .ok (pool, rest) →
          Bytes.toNat (bs.take 2) = pool.slotCount)
      ∧ ∀ count body, ReadsExact count body := by
  refine ⟨fun pool hpool => hpool.wellFormed.slotsExact, ?_, fun count body => ?_⟩
  · intro bs pool rest hread
    exact slotCount_of_read hread
  · refine ⟨fun rest => read_row_iff count body rest, ?_, ?_⟩
    · intro hzero
      rw [hzero]
      exact read_zero body
    · intro cs mid c rest hrow hc hwide hlast
      exact read_overrun hrow hc hwide hlast

/-- The constant `7` as a `long`, as it is stored. -/
def longSeven : Bytes := [5, 0, 0, 0, 0, 0, 0, 0, 7]

/-- A `long` behind the count 3 makes a pool of three slots; behind the count 2 there is no
room for its second slot. -/
theorem longSeven_needs_two_slots :
    (∃ pool, Pool.read (Bytes.ofNat 2 3 ++ longSeven) = .ok (pool, [])
        ∧ SlotsExact pool ∧ pool.slotCount = 3)
      ∧ Pool.read (Bytes.ofNat 2 2 ++ longSeven) = .error .poolFull := by
  have hlong : Constant.read longSeven = .ok (.long 7, []) := rfl
  obtain ⟨hreachable, hcount, hreads⟩ := slots_exact
  constructor
  · have hrow : Row longSeven [.long 7] [] := .cons hlong (.nil [])
    obtain ⟨pool, hpool⟩ := ((hreads 3 longSeven).reads_iff []).mpr ⟨_, hrow, rfl⟩
    refine ⟨pool, hpool, hreachable pool ⟨pool, .inr ⟨_, _, hpool⟩, .refl⟩, ?_⟩
    exact (hcount _ pool [] hpool).symm
  · exact (hreads 2 longSeven).overrun_refused [] longSeven (.long 7) [] (.nil _) hlong rfl rfl

end Pool

end Classdesk
