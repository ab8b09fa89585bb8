import Classdesk.Proofs.Format.PoolGrowth

/-!
# Shared constants are found at their lowest index

Texts, classes, strings, integers, longs, names with types, fields and methods are
shared: inserting one that is already there gives the one that is there. The map that
makes this quick is kept beside the slots, and the main result
`reachable_shares_constants` says that the two never drift apart: in every pool that
can come about, by reading and by inserting in any order, with or without success, the
map holds `i` for a constant exactly if `i` is the lowest index that holds it.

A class file may hold a constant twice. A pool that only ever grew by insertions does
not.
-/

namespace Classdesk.Pool

/-- Some slot holds the constant. -/
def Holds (pool : Pool) (c : Constant) : Prop :=
  ∃ j : Nat, pool.slots[j]? = some (some c)

/-- The lowest slot that holds the constant. -/
structure IsFirst (pool : Pool) (c : Constant) (i : ConstIndex) : Prop where
  holds : pool.slots[i.toNat]? = some (some c)
  lowest : ∀ j < i.toNat, pool.slots[j]? ≠ some (some c)

/-- The constant that an insertion without parts asks for. -/
def Insertion.plain? : Insertion → Option Constant
  | text value => some (.text value)
  | integer value => some (.integer value)
  | long value => some (.long value)
  | _ => none

/-- An insertion without parts is the interning of one shared constant. -/
private theorem Insertion.plain?_spec {what : Insertion} {c : Constant} (h : what.plain? = some c) :
    c.isShared = true ∧ what.run = intern c := by
  cases what <;> cases h <;> exact ⟨rfl, rfl⟩

/-! ## First indices -/

theorem slots_getElem? (pool : Pool) (j : Nat) : pool.slots[j]? = pool.slots.toList[j]? :=
  Array.getElem?_toList.symm

/-- Searching the slots gives the first index. -/
theorem idxOf?_slots_eq_some {pool : Pool} {c : Constant} {j : Nat} :
    pool.slots.toList.idxOf? (some c) = some j
      ↔ pool.slots[j]? = some (some c) ∧ ∀ k < j, pool.slots[k]? ≠ some (some c) := by
  rw [List.idxOf?_eq_some_iff]
  constructor
  · rintro ⟨hj, hc, hlow⟩
    refine ⟨by rw [slots_getElem?, List.getElem?_eq_getElem hj, hc], fun k hk hkc => ?_⟩
    have hkl : k < pool.slots.toList.length := by omega
    rw [slots_getElem?, List.getElem?_eq_getElem hkl] at hkc
    exact hlow k hk (Option.some.inj hkc)
  · rintro ⟨hc, hlow⟩
    rw [slots_getElem?] at hc
    obtain ⟨hj, hc⟩ := List.getElem?_eq_some_iff.mp hc
    refine ⟨hj, hc, fun k hk hkc => hlow k hk ?_⟩
    rw [slots_getElem?, List.getElem?_eq_getElem (by omega), hkc]

/-- A constant that no slot holds is not found. -/
private theorem idxOf?_slots_eq_none {pool : Pool} {c : Constant} :
    pool.slots.toList.idxOf? (some c) = none ↔ ¬ pool.Holds c := by
  rw [List.idxOf?_eq_none_iff, List.mem_iff_getElem?]
  simp only [Holds, slots_getElem?]

/-- Positions in a well-formed pool fit an index. -/
theorem WellFormed.toNat_ofNat {pool : Pool} (h : WellFormed pool) {j : Nat}
    (hj : j ≤ pool.slots.size) : (UInt16.ofNat j).toNat = j := by
  have hsize := h.size_le
  rw [UInt16.toNat_ofNat', Nat.mod_eq_of_lt (by omega)]

/-- The map holds an index exactly if it is the lowest one with that constant. -/
theorem WellFormed.firstIndex_eq_some {pool : Pool} (h : WellFormed pool) {c : Constant}
    (hc : c.isShared = true) {i : ConstIndex} :
    pool.firstIndex[c]? = some i ↔ IsFirst pool c i := by
  rw [h.first c, if_pos hc, Option.map_eq_some_iff]
  constructor
  · rintro ⟨j, hj, rfl⟩
    have hfirst := idxOf?_slots_eq_some.mp hj
    have hlt : j < pool.slots.size := (Array.getElem?_eq_some_iff.mp hfirst.1).1
    rw [← h.toNat_ofNat (Nat.le_of_lt hlt)] at hfirst
    exact ⟨hfirst.1, hfirst.2⟩
  · intro hi
    exact ⟨i.toNat, idxOf?_slots_eq_some.mpr ⟨hi.holds, hi.lowest⟩, UInt16.ofNat_toNat⟩

/-- The map knows nothing of a constant exactly if no slot holds it. -/
theorem WellFormed.firstIndex_eq_none {pool : Pool} (h : WellFormed pool) {c : Constant}
    (hc : c.isShared = true) : pool.firstIndex[c]? = none ↔ ¬ pool.Holds c := by
  rw [h.first c, if_pos hc, Option.map_eq_none_iff, idxOf?_slots_eq_none]

/-! ## Interning a shared constant -/

/-- A constant that is there is found, and nothing changes. -/
theorem intern_of_holds {pool : Pool} (h : WellFormed pool) {c : Constant}
    (hc : c.isShared = true) (hholds : pool.Holds c) :
    ∃ i, intern c pool = (.ok i, pool) ∧ IsFirst pool c i := by
  cases hi : pool.firstIndex[c]? with
  | none => exact absurd hholds ((h.firstIndex_eq_none hc).mp hi)
  | some i =>
    refine ⟨i, ?_, (h.firstIndex_eq_some hc).mp hi⟩
    simp only [intern, hi]

/-- A constant that is not there is pushed. -/
theorem intern_of_not_holds {pool : Pool} (h : WellFormed pool) {c : Constant}
    (hholds : ¬ pool.Holds c) : intern c pool = push c pool := by
  have hnone : pool.firstIndex[c]? = none := by
    rw [h.first c, idxOf?_slots_eq_none.mpr hholds]
    simp
  simp only [intern, hnone]

/-- A successful push appends one constant, at the index it returns. -/
theorem push_ok {pool after : Pool} {c : Constant} {i : ConstIndex}
    (h : push c pool = (.ok i, after)) :
    i = UInt16.ofNat pool.slots.size ∧ after.slots.toList = pool.slots.toList ++ c.slots := by
  rcases Nat.lt_or_ge 65535 (pool.slots.size + c.width) with hfull | hfits
  · rw [push_full hfull] at h
    cases h
  · obtain ⟨next, hpush, hslots, -⟩ := push_fits hfits
    rw [hpush] at h
    cases h
    exact ⟨rfl, hslots⟩

/-- Behind an appended constant, slots hold what they held, and the new slot the new
constant. -/
theorem getElem?_of_appended {pool after : Pool} {c k : Constant}
    (h : after.slots.toList = pool.slots.toList ++ c.slots) {j : Nat} :
    after.slots[j]? = some (some k)
      ↔ pool.slots[j]? = some (some k) ∨ (j = pool.slots.size ∧ c = k) := by
  rw [slots_getElem?, slots_getElem?, h]
  rcases Nat.lt_trichotomy j pool.slots.size with hlt | heq | hgt
  · rw [List.getElem?_append_left (by simpa using hlt)]
    simp [Nat.ne_of_lt hlt]
  · rw [List.getElem?_append_right (by simp [heq]),
      List.getElem?_eq_none (l := pool.slots.toList) (by simp [heq])]
    simp [heq, Constant.slots]
  · rw [List.getElem?_append_right (by simp; omega),
      List.getElem?_eq_none (l := pool.slots.toList) (by simp; omega)]
    obtain ⟨n, hn⟩ : ∃ n, j - pool.slots.toList.length = n + 1 :=
      ⟨j - pool.slots.size - 1, by simp; omega⟩
    rw [hn, Constant.slots, List.getElem?_cons_succ, List.getElem?_replicate]
    constructor
    · intro hnone
      split at hnone
      next => cases hnone
      next => cases hnone
    · rintro (hnone | ⟨hj, -⟩)
      · cases hnone
      · omega

/-- What a successful insertion of a shared constant did. -/
theorem intern_ok {pool after : Pool} (h : WellFormed pool) {c : Constant}
    (hc : c.isShared = true) {i : ConstIndex} (hintern : intern c pool = (.ok i, after)) :
    (pool.Holds c → IsFirst pool c i ∧ after = pool)
      ∧ (¬ pool.Holds c → i.toNat = pool.slots.size
          ∧ after.slots.toList = pool.slots.toList ++ c.slots ∧ IsFirst after c i) := by
  refine ⟨fun hholds => ?_, fun hholds => ?_⟩
  · obtain ⟨j, hj, hfirst⟩ := intern_of_holds h hc hholds
    rw [hj] at hintern
    cases hintern
    exact ⟨hfirst, rfl⟩
  · rw [intern_of_not_holds h hholds] at hintern
    obtain ⟨rfl, hslots⟩ := push_ok hintern
    have hi : (UInt16.ofNat pool.slots.size).toNat = pool.slots.size :=
      h.toNat_ofNat (Nat.le_refl _)
    refine ⟨hi, hslots, ?_, fun j hj hjc => ?_⟩
    · rw [hi, getElem?_of_appended hslots]
      exact .inr ⟨rfl, rfl⟩
    · rw [hi] at hj
      rcases (getElem?_of_appended hslots).mp hjc with hold | ⟨hnew, -⟩
      · exact hholds ⟨j, hold⟩
      · omega

/-- A constant that is new to a pool is appended if there is room for it. -/
theorem WellFormed.intern_new {pool : Pool} (h : WellFormed pool) {c : Constant}
    (hnew : ¬ pool.Holds c) (hfits : pool.slots.size + c.width ≤ 65535) :
    ∃ after, intern c pool = (.ok (UInt16.ofNat pool.slots.size), after) ∧ WellFormed after
      ∧ after.slots.toList = pool.slots.toList ++ c.slots := by
  obtain ⟨after, hpush, hslots, -⟩ := push_fits hfits
  rw [← intern_of_not_holds h hnew] at hpush
  have hafter := intern_wellFormed c pool h
  rw [hpush] at hafter
  exact ⟨after, hpush, hafter, hslots⟩

/-! ## No constant twice -/

/-- No two slots hold the same shared constant. -/
def Distinct (pool : Pool) : Prop :=
  ∀ c : Constant, c.isShared = true → ∀ i j : Nat, pool.slots[i]? = some (some c) →
    pool.slots[j]? = some (some c) → i = j

/-- A constant that is new is not there twice. -/
private theorem push_distinct (c : Constant) (pool : Pool) (hnew : IsNew c pool)
    (h : WellFormed pool ∧ Distinct pool) :
    WellFormed (push c pool).2 ∧ Distinct (push c pool).2 := by
  refine ⟨push_wellFormed h.1, ?_⟩
  rcases Nat.lt_or_ge 65535 (pool.slots.size + c.width) with hfull | hfits
  · rw [push_full hfull]
    exact h.2
  · obtain ⟨after, hpush, hslots, -⟩ := push_fits hfits
    rw [hpush]
    -- An old slot with the constant would have been found.
    have hnone : ∀ k : Constant, k.isShared = true → c = k → ∀ i : Nat,
        pool.slots[i]? ≠ some (some k) := by
      rintro k hk rfl i hi
      exact (h.1.firstIndex_eq_none hk).mp (hnew hk) ⟨i, hi⟩
    intro k hk i j hi hj
    rcases (getElem?_of_appended hslots).mp hi with hi | ⟨hi, hck⟩
    · rcases (getElem?_of_appended hslots).mp hj with hj | ⟨-, hck⟩
      · exact h.2 k hk i j hi hj
      · exact absurd hi (hnone k hk hck i)
    · rcases (getElem?_of_appended hslots).mp hj with hj | ⟨hj, -⟩
      · exact absurd hj (hnone k hk hck j)
      · rw [hi, hj]

private theorem empty_distinct : Distinct empty := by
  intro c _ i j hi _
  rcases Nat.eq_zero_or_pos i with rfl | hpos
  · simp [empty] at hi
  · rw [slots_getElem?, List.getElem?_eq_none (by simp [empty]; omega)] at hi
    cases hi

/-- What sharing means for a pool. -/
structure SharesConstants (pool : Pool) : Prop where
  /-- The map holds the lowest index of each shared constant, and no other index. -/
  agrees : ∀ c : Constant, c.isShared = true →
    (∀ i, pool.firstIndex[c]? = some i ↔ IsFirst pool c i)
      ∧ (pool.firstIndex[c]? = none ↔ ¬ pool.Holds c)
  /-- Inserting a text, an integer or a long finds the lowest equal one and changes
  nothing, or appends exactly this one. -/
  inserts : ∀ (what : Insertion) (c : Constant), what.plain? = some c →
    ∀ (i : ConstIndex) (after : Pool), what.run pool = (.ok i, after) →
      (pool.Holds c → IsFirst pool c i ∧ after = pool)
        ∧ (¬ pool.Holds c → i.toNat = pool.slots.size
            ∧ after.slots.toList = pool.slots.toList ++ c.slots ∧ IsFirst after c i)
  /-- Insertions alone never store a constant twice. -/
  distinct : Grows empty pool → Distinct pool

/-- **The map of shared constants agrees with the slots**, in every pool that can come
about. -/
theorem reachable_shares_constants {pool : Pool} (h : Reachable pool) :
    SharesConstants pool := by
  have hwf := h.wellFormed
  refine ⟨fun c hc => ⟨fun i => hwf.firstIndex_eq_some hc, hwf.firstIndex_eq_none hc⟩,
    fun what c hplain i after hrun => ?_, fun hgrows => ?_⟩
  · obtain ⟨hc, hwhat⟩ := Insertion.plain?_spec hplain
    rw [hwhat] at hrun
    exact intern_ok hwf hc hrun
  · exact (hgrows.keeps push_distinct ⟨empty_wellFormed, empty_distinct⟩).2

/-- A stored pool with the integer 7 in two slots. -/
def sevenTwice : Bytes := [0, 3, 3, 0, 0, 0, 7, 3, 0, 0, 0, 7]

/-- A pool may be read with a constant twice, and grow by a class whose name is new. The first
of the two constants is found, and a new text is appended. -/
theorem sevenTwice_shares_constants :
    ∃ pool after last, Pool.read sevenTwice = .ok (pool, [])
      ∧ (Insertion.classRef "A").run pool = (.ok 4, after) ∧ SharesConstants after
      ∧ (Insertion.integer 7).run after = (.ok 1, after) ∧ IsFirst after (.integer 7) 1
      ∧ (Insertion.text "B").run after = (.ok 5, last) ∧ IsFirst last (.text "B") 5 := by
  obtain ⟨pool, hread, hpool⟩ : ∃ pool, Pool.read sevenTwice = .ok (pool, [])
      ∧ pool.slots.toList = [none, some (.integer 7), some (.integer 7)] := ⟨_, rfl, rfl⟩
  have hsize (p : Pool) : p.slots.size = p.slots.toList.length := Array.length_toList.symm
  -- The name of the class and the class itself are appended.
  obtain ⟨mid, htext, hwf, hmid⟩ := (read_wellFormed hread).intern_new
    (c := .text "A") (by rw [← idxOf?_slots_eq_none, hpool]; rfl) (by rw [hsize, hpool]; decide)
  rw [hsize, hpool] at htext
  rw [hpool] at hmid
  obtain ⟨after, hclass, hwf, hafter⟩ := hwf.intern_new
    (c := .classRef 3) (by rw [← idxOf?_slots_eq_none, hmid]; rfl) (by rw [hsize, hmid]; decide)
  rw [hsize, hmid] at hclass
  rw [hmid] at hafter
  have hrun : (Insertion.classRef "A").run pool = (.ok 4, after) := by
    show (internText "A" >>= fun i => intern (.classRef i)) pool = _
    rw [bind_apply, internText, htext]
    exact hclass
  have hshares : SharesConstants after := by
    refine reachable_shares_constants ⟨pool, .inr ⟨sevenTwice, [], hread⟩, ?_⟩
    have hstep := Inserts.entry (.classRef "A") pool
    rw [hrun] at hstep
    exact .single hstep
  -- The integer is there.
  have hseven : (Insertion.integer 7).run after = (.ok 1, after) := by
    have hfirst : after.firstIndex[Constant.integer 7]? = some 1 := by
      rw [hwf.first, hafter]
      rfl
    simp only [Insertion.run, intern, hfirst]
  have hthere : after.Holds (.integer 7) := by
    refine ⟨1, ?_⟩
    rw [slots_getElem?, hafter]
    rfl
  -- The text is not.
  have hnew : ¬ after.Holds (.text "B") := by
    rw [← idxOf?_slots_eq_none, hafter]
    rfl
  obtain ⟨last, hlast, -, -⟩ := hwf.intern_new hnew (by rw [hsize, hafter]; decide)
  rw [hsize, hafter] at hlast
  refine ⟨pool, after, last, hread, hrun, hshares, hseven, ?_, hlast, ?_⟩
  · exact ((hshares.inserts (.integer 7) _ rfl 1 after hseven).1 hthere).1
  · exact ((hshares.inserts (.text "B") _ rfl 5 last hlast).2 hnew).2.2

end Classdesk.Pool
