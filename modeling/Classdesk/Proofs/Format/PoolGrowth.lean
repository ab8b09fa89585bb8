import Classdesk.Format.Attribute
import Classdesk.Proofs.Reading
import Mathlib.Logic.Relation
import Std.Data.HashMap.Lemmas

/-!
# How a constant pool grows

A pool starts out empty or is read from a class file, and then grows by insertions,
which may fail. Whatever an insertion does to the pool, it does by `push`, one constant
after the other, and a shared constant is only pushed if it is new (`Grows.pushes`). So
an invariant of pools is proved for `push` once:

> `Reachable.wellFormed`: every pool that can come about is well-formed: constants
> stand behind each other from slot 1 on, there are at most 65535 slots, and the map
> of shared constants holds the lowest index of each.
-/

namespace Classdesk

/-- The slots that a constant takes. A wide one is followed by an unused slot. -/
def Constant.slots (c : Constant) : List (Option Constant) :=
  some c :: List.replicate (c.width - 1) none

/-- A constant takes as many slots as it is wide. -/
theorem Constant.length_slots (c : Constant) : c.slots.length = c.width := by
  cases c <;> rfl

theorem Constant.width_pos (c : Constant) : 0 < c.width := by
  cases c <;> simp [Constant.width]

/-- A first occurrence in two lists is one in the first list, else in the second. -/
theorem idxOf?_append {α : Type} [BEq α] (xs ys : List α) (a : α) :
    (xs ++ ys).idxOf? a = (xs.idxOf? a).or ((ys.idxOf? a).map (· + xs.length)) :=
  List.findIdx?_append

/-- A constant is found in its own slots only, and there in the first. -/
private theorem Constant.idxOf?_slots (c k : Constant) :
    c.slots.idxOf? (some k) = if c = k then some 0 else none := by
  by_cases h : c = k
  · rw [if_pos h, h, Constant.slots, List.idxOf?_cons, if_pos (beq_self_eq_true _)]
  · have hrest : (List.replicate (c.width - 1) (none : Option Constant)).idxOf? (some k)
        = none := by
      rw [List.idxOf?_eq_none_iff]
      intro hmem
      exact absurd (List.eq_of_mem_replicate hmem) (by simp)
    rw [if_neg h, Constant.slots, List.idxOf?_cons, hrest]
    simp [h]

namespace Pool

/-! ## Well-formed pools -/

/-- The invariant of pools. -/
structure WellFormed (pool : Pool) : Prop where
  /-- Behind slot 0 there are constants, one after the other. -/
  laidOut : ∃ cs : List Constant, pool.slots.toList = none :: cs.flatMap Constant.slots
  size_le : pool.slots.size ≤ 65535
  /-- The map holds the first index of every shared constant, and nothing else. -/
  first : ∀ c, pool.firstIndex[c]?
    = if c.isShared then (pool.slots.toList.idxOf? (some c)).map UInt16.ofNat else none

theorem empty_wellFormed : WellFormed empty := by
  refine ⟨⟨[], rfl⟩, by simp [empty], fun c => ?_⟩
  simp [empty, List.idxOf?_cons]

/-- A constant that does not fit changes nothing. -/
theorem push_full {c : Constant} {pool : Pool} (h : 65535 < pool.slots.size + c.width) :
    push c pool = (.error .poolFull, pool) := by
  rw [push, if_pos h]

/-- A constant that fits is appended, and remembered if it is shared and new. -/
theorem push_fits {c : Constant} {pool : Pool} (h : pool.slots.size + c.width ≤ 65535) :
    ∃ after, push c pool = (.ok (UInt16.ofNat pool.slots.size), after)
      ∧ after.slots.toList = pool.slots.toList ++ c.slots
      ∧ ∀ k, after.firstIndex[k]?
          = if c.isShared = true ∧ c = k ∧ pool.firstIndex[k]? = none
            then some (UInt16.ofNat pool.slots.size) else pool.firstIndex[k]? := by
  rw [push, if_neg (by omega)]
  refine ⟨_, rfl, ?_, fun k => ?_⟩
  · by_cases hw : c.width = 2
    · simp [hw, Constant.slots]
    · have hone : c.width - 1 = 0 := by cases c <;> simp_all [Constant.width]
      simp [hw, Constant.slots, hone]
  · by_cases hs : c.isShared = true
    · simp only [hs, if_true, Std.HashMap.getElem?_insertIfNew, beq_iff_eq, true_and]
      simp only [Std.HashMap.mem_iff_isSome_getElem?, Option.not_isSome_iff_eq_none]
      by_cases hck : c = k
      · simp [hck]
      · simp [hck]
    · simp [hs]

/-- Pushing keeps the invariant, whether or not the constant fits. -/
theorem push_wellFormed {c : Constant} {pool : Pool} (h : WellFormed pool) :
    WellFormed (push c pool).2 := by
  rcases Nat.lt_or_ge 65535 (pool.slots.size + c.width) with hfull | hfits
  · rw [push_full hfull]
    exact h
  · obtain ⟨after, hpush, hslots, hmap⟩ := push_fits hfits
    rw [hpush]
    obtain ⟨cs, hcs⟩ := h.laidOut
    refine ⟨⟨cs ++ [c], by simp [hslots, hcs]⟩, ?_, fun k => ?_⟩
    · rw [← Array.length_toList, hslots, List.length_append, Constant.length_slots,
        Array.length_toList]
      exact hfits
    · have hfind : after.slots.toList.idxOf? (some k)
          = (pool.slots.toList.idxOf? (some k)).or
              (if c = k then some pool.slots.size else none) := by
        rw [hslots, idxOf?_append, Constant.idxOf?_slots]
        by_cases hck : c = k
        · simp [hck]
        · simp [hck]
      rw [hmap, hfind, h.first k]
      -- A constant that was there keeps its first index, a new one gets the new slot.
      by_cases hck : c = k
      · subst hck
        by_cases hs : c.isShared = true
        · cases hidx : pool.slots.toList.idxOf? (some c) with
          | none => simp [hs]
          | some j => simp [hs]
        · simp [hs]
      · simp [hck]

/-! ## Reading -/

/-- Constants that are read are pushed one by one. -/
theorem readConstants_wellFormed {count : Nat} :
    ∀ (fuel : Nat) {pool after : Pool} {bs rest : Bytes},
      readConstants count fuel pool bs = .ok (after, rest) → WellFormed pool →
      WellFormed after := by
  intro fuel
  induction fuel with
  | zero =>
    intro pool after bs rest h hpool
    cases h
    exact hpool
  | succ fuel ih =>
    intro pool after bs rest h hpool
    rw [readConstants] at h
    by_cases hmore : pool.slots.size < count
    · rw [if_pos hmore, Reading.bind_eq_ok] at h
      obtain ⟨c, s, -, h⟩ := h
      have hafter := push_wellFormed (c := c) hpool
      cases hpush : push c pool with
      | mk result next =>
        rw [hpush] at hafter h
        cases result with
        | error e => simp at h
        | ok i => exact ih h hafter
    · rw [if_neg hmore] at h
      cases h
      exact hpool

/-- A pool that was read is well-formed. -/
theorem read_wellFormed {bs rest : Bytes} {pool : Pool} (h : Pool.read bs = .ok (pool, rest)) :
    WellFormed pool := by
  simp only [Pool.read, Reading.bind_eq_ok] at h
  obtain ⟨count, s, -, found, s', hread, h⟩ := h
  have hfound := readConstants_wellFormed _ hread empty_wellFormed
  by_cases hcount : found.slots.size = count.toNat
  · rw [if_pos hcount] at h
    cases h
    exact hfound
  · rw [if_neg hcount] at h
    simp at h

/-! ## Inserting -/

/-- A pool before and after one insertion, whether it succeeded or failed. -/
inductive Inserts : Pool → Pool → Prop
  | entry (what : Insertion) (pool : Pool) : Inserts pool (what.run pool).2
  | named {α : Type} [AttributeBody α] (body : α) (pool : Pool) :
    Inserts pool (internAttribute body pool).2

/-- A pool before and after any number of insertions. -/
def Grows : Pool → Pool → Prop := Relation.ReflTransGen Inserts

/-- The pools that can come about. -/
def Reachable (pool : Pool) : Prop :=
  ∃ origin, (origin = empty ∨ ∃ bs rest, Pool.read bs = .ok (origin, rest))
    ∧ Grows origin pool

/-- The constant is not shared, or not known yet. -/
def IsNew (c : Constant) (pool : Pool) : Prop :=
  c.isShared = true → pool.firstIndex[c]? = none

/-- A pool before and after pushing some constants that are new. -/
def Pushes : Pool → Pool → Prop :=
  Relation.ReflTransGen fun before after => ∃ c, IsNew c before ∧ after = (push c before).2

/-- A step on pools that does nothing but push new constants. -/
def OnlyPushes {α : Type} (x : PoolM α) : Prop := ∀ pool, Pushes pool (x pool).2

/-- The second of two steps is made in the pool that the first one left, if that succeeded. -/
theorem bind_apply {α β : Type} (x : PoolM α) (f : α → PoolM β) (pool : Pool) :
    (x >>= f) pool =
      match x pool with
      | (.ok a, next) => f a next
      | (.error e, next) => (.error e, next) := by
  show (match x pool with | (a, next) => ExceptT.bindCont f a next) = _
  cases hx : x pool with
  | mk result next =>
    cases result with
    | ok a => rfl
    | error e => rfl

/-- What is not shared may always be pushed. -/
theorem onlyPushes_push {c : Constant} (hc : c.isShared = false) : OnlyPushes (push c) := by
  intro pool
  refine .single ⟨c, fun hshared => ?_, rfl⟩
  rw [hc] at hshared
  cases hshared

/-- A shared constant is only pushed where it is not known. -/
theorem onlyPushes_intern (c : Constant) : OnlyPushes (intern c) := by
  intro pool
  unfold intern
  split
  next => exact .refl
  next hnone => exact .single ⟨c, fun _ => hnone, rfl⟩

/-- Two steps that only push do so together, also if the second fails. -/
theorem OnlyPushes.bind {α β : Type} {x : PoolM α} {f : α → PoolM β} (hx : OnlyPushes x)
    (hf : ∀ a, OnlyPushes (f a)) : OnlyPushes (x >>= f) := by
  intro pool
  have hfirst := hx pool
  rw [bind_apply]
  cases hr : x pool with
  | mk result next =>
    rw [hr] at hfirst
    cases result with
    | ok a => exact hfirst.trans (hf a next)
    | error e => exact hfirst

private theorem onlyPushes_class (name : String) : OnlyPushes (internClass name) :=
  (onlyPushes_intern _).bind fun _ => onlyPushes_intern _

private theorem onlyPushes_nameAndType (name descriptor : String) :
    OnlyPushes (internNameAndType name descriptor) :=
  (onlyPushes_intern _).bind fun _ => (onlyPushes_intern _).bind fun _ =>
    onlyPushes_intern _

/-- No insertion does anything but push new constants. -/
theorem Insertion.onlyPushes (what : Insertion) : OnlyPushes what.run := by
  cases what with
  | classRef name => exact onlyPushes_class name
  | string value => exact (onlyPushes_intern _).bind fun _ => onlyPushes_intern _
  | nameAndType name descriptor => exact onlyPushes_nameAndType name descriptor
  | field member | method member isInterface =>
    exact (onlyPushes_class _).bind fun _ => (onlyPushes_nameAndType _ _).bind fun _ =>
      onlyPushes_intern _
  | float bits | double bits => exact onlyPushes_push rfl
  | text value => exact onlyPushes_intern _
  | integer value | long value => exact onlyPushes_intern _

/-- Of an attribute, only the name goes into the pool. -/
private theorem onlyPushes_attribute {α : Type} [AttributeBody α] (body : α) :
    OnlyPushes (internAttribute body) := by
  refine (onlyPushes_intern _).bind fun name pool => ?_
  cases (Codec.write body : Except StreamFault Bytes) with
  | ok info => exact .refl
  | error fault => exact .refl

/-- Whatever is inserted, the pool changes by pushing new constants only. -/
theorem Grows.pushes {before after : Pool} (h : Grows before after) : Pushes before after := by
  induction h with
  | refl => exact .refl
  | tail _ hstep ih =>
    cases hstep with
    | entry what => exact ih.trans (what.onlyPushes _)
    | named body => exact ih.trans (onlyPushes_attribute body _)

/-- What pushing a new constant keeps, every growth keeps. -/
theorem Grows.keeps {P : Pool → Prop} {before after : Pool} (h : Grows before after)
    (hstep : ∀ c pool, IsNew c pool → P pool → P (push c pool).2) (hbefore : P before) :
    P after := by
  have hpushes := h.pushes
  clear h
  -- The steps of `h` are whole insertions; those of `hpushes` are single constants.
  induction hpushes with
  | refl => exact hbefore
  | tail _ hpush ih =>
    obtain ⟨c, hnew, rfl⟩ := hpush
    exact hstep c _ hnew ih

/-- Interning keeps the invariant. -/
theorem intern_wellFormed (c : Constant) (pool : Pool) (h : WellFormed pool) :
    WellFormed (intern c pool).2 := by
  unfold intern
  split
  next => exact h
  next => exact push_wellFormed h

/-- **Every pool is well-formed**, wherever it came from and whatever was inserted. -/
theorem Reachable.wellFormed {pool : Pool} (h : Reachable pool) : WellFormed pool := by
  obtain ⟨origin, horigin, hgrows⟩ := h
  refine hgrows.keeps (fun _ _ _ => push_wellFormed) ?_
  rcases horigin with rfl | ⟨bs, rest, hread⟩
  · exact empty_wellFormed
  · exact read_wellFormed hread

end Pool

end Classdesk
