import Classdesk.Proofs.Format.PoolLookup
import Classdesk.Proofs.Format.PoolSharing

/-!
# What was inserted stays

An index that an insertion returned is good for the rest of the pool's life: it leads
to the inserted content after any number of further insertions, and the same insertion
made again gives the same index and changes nothing.

> `inserted_stays`: `what.run pool = (.ok i, after) → Grows after later →`
> `what.LooksUp later i`, and `what.run later = (.ok i, later)` for shared content

A pool only ever gets longer at its end (`Extends`), and so do the references inside
it. Content that is put together from parts is recalled part by part: `Recalls` says so
of one step, and `Recalls.bind` of two steps in a row. The second step may fail and
leave the parts of the first behind; nothing below depends on which steps of a later
insertion succeeded.
-/

namespace Classdesk.Pool

/-! ## Later pools -/

/-- A later state of a pool: there may be more slots, and what was known is known. -/
structure Extends (before after : Pool) : Prop where
  slots : before.slots.toList <+: after.slots.toList
  known : ∀ {c : Constant} {i : ConstIndex}, before.firstIndex[c]? = some i →
    after.firstIndex[c]? = some i

theorem Extends.refl (pool : Pool) : Extends pool pool := ⟨List.prefix_rfl, id⟩

/-- Later than later is later. -/
theorem Extends.trans {first second third : Pool} (h : Extends first second)
    (h' : Extends second third) : Extends first third :=
  ⟨h.slots.trans h'.slots, fun hi => h'.known (h.known hi)⟩

/-- Pushing only adds at the end, and forgets nothing. -/
private theorem push_extends (c : Constant) (pool : Pool) : Extends pool (push c pool).2 := by
  rcases Nat.lt_or_ge 65535 (pool.slots.size + c.width) with hfull | hfits
  · rw [push_full hfull]
    exact .refl pool
  · obtain ⟨after, hpush, hslots, hmap⟩ := push_fits hfits
    rw [hpush]
    refine ⟨hslots ▸ List.prefix_append _ _, fun {k i} hi => ?_⟩
    rw [hmap, if_neg (by simp [hi]), hi]

/-- Pushing constants, however many, leads to a later and well-formed pool. -/
theorem Pushes.later {before after : Pool} (h : Pushes before after) :
    Extends before after ∧ (WellFormed before → WellFormed after) := by
  induction h with
  | refl => exact ⟨.refl before, id⟩
  | tail _ hstep ih =>
    obtain ⟨c, -, rfl⟩ := hstep
    exact ⟨ih.1.trans (push_extends c _), fun hwf => push_wellFormed (ih.2 hwf)⟩

/-! ## What stands at an index stays there -/

/-- A constant stays where it starts. -/
theorem Extends.stands {before after : Pool} (h : Extends before after) {i : ConstIndex}
    {c : Constant} (hc : before.At i c) : after.At i c := by
  unfold At at hc ⊢
  rw [slots_getElem?] at hc ⊢
  obtain ⟨added, hslots⟩ := h.slots
  obtain ⟨hlt, -⟩ := List.getElem?_eq_some_iff.mp hc
  rw [← hslots, List.getElem?_append_left hlt]
  exact hc

/-- A constant is at the index that pushing it returns. -/
theorem push_at {pool after : Pool} (h : WellFormed pool) {c : Constant} {i : ConstIndex}
    (hpush : push c pool = (.ok i, after)) : after.At i c := by
  obtain ⟨rfl, hslots⟩ := push_ok hpush
  have hi := h.toNat_ofNat (Nat.le_refl pool.slots.size)
  exact (getElem?_of_appended hslots).mpr (.inr ⟨hi, rfl⟩)

/-- A shared constant is at the index that interning it returns. -/
theorem intern_at {pool after : Pool} (h : WellFormed pool) {c : Constant}
    (hc : c.isShared = true) {i : ConstIndex} (hintern : intern c pool = (.ok i, after)) :
    after.At i c := by
  cases hfound : pool.firstIndex[c]? with
  | some j =>
    simp only [intern, hfound] at hintern
    cases hintern
    exact ((h.firstIndex_eq_some hc).mp hfound).holds
  | none =>
    simp only [intern, hfound] at hintern
    exact push_at h hintern

/-- A shared constant is known by the index that interning it returns. -/
theorem intern_known {pool after : Pool} (h : WellFormed pool) {c : Constant}
    (hc : c.isShared = true) {i : ConstIndex} (hintern : intern c pool = (.ok i, after)) :
    after.firstIndex[c]? = some i := by
  have hafter : WellFormed after := by
    have hwf := intern_wellFormed c pool h
    rwa [hintern] at hwf
  rw [hafter.firstIndex_eq_some hc]
  obtain ⟨hthere, hnew⟩ := intern_ok h hc hintern
  by_cases hholds : pool.Holds c
  · obtain ⟨hfirst, rfl⟩ := hthere hholds
    exact hfirst
  · exact (hnew hholds).2.2

/-! ## Steps that are recalled -/

/-- A step that pushes some constants and whose success is for good: in every later pool
its content stands at the index it returned, and the step gives that index again without
changing the pool. -/
structure Recalls (x : PoolM ConstIndex) (Content : Pool → ConstIndex → Prop) : Prop where
  onlyPushes : OnlyPushes x
  again : ∀ {pool after later : Pool} {i : ConstIndex}, WellFormed pool →
    x pool = (.ok i, after) → Extends after later →
    Content later i ∧ x later = (.ok i, later)

/-- Two steps in a row that succeed did so one after the other. -/
theorem bind_eq_ok {α β : Type} {x : PoolM α} {f : α → PoolM β} {pool after : Pool} {b : β} :
    (x >>= f) pool = (.ok b, after) ↔
      ∃ a mid, x pool = (.ok a, mid) ∧ f a mid = (.ok b, after) := by
  rw [bind_apply]
  cases hx : x pool with
  | mk result next =>
    cases result with
    | ok a =>
      constructor
      · intro hf
        exact ⟨a, next, rfl, hf⟩
      · intro hsteps
        obtain ⟨_, _, ha, hf⟩ := hsteps
        cases ha
        exact hf
    | error e =>
      constructor
      · intro hf
        cases hf
      · intro hsteps
        obtain ⟨_, _, ha, -⟩ := hsteps
        cases ha

/-- A shared constant is recalled by the map. -/
theorem recalls_intern {c : Constant} (hc : c.isShared = true) :
    Recalls (intern c) fun pool i => pool.At i c where
  onlyPushes := onlyPushes_intern c
  again {pool after later i} hwf hintern hlater := by
    refine ⟨hlater.stands (intern_at hwf hc hintern), ?_⟩
    have hknown := hlater.known (intern_known hwf hc hintern)
    simp only [intern, hknown]

/-- What is put together from two steps is recalled step by step. -/
theorem Recalls.bind {x : PoolM ConstIndex} {f : ConstIndex → PoolM ConstIndex}
    {P : Pool → ConstIndex → Prop} {Q : ConstIndex → Pool → ConstIndex → Prop}
    (hx : Recalls x P) (hf : ∀ a, Recalls (f a) (Q a)) :
    Recalls (x >>= f) fun pool i => ∃ a, P pool a ∧ Q a pool i where
  onlyPushes := hx.onlyPushes.bind fun a => (hf a).onlyPushes
  again {pool after later i} hwf hrun hlater := by
    obtain ⟨a, mid, hfirst, hsecond⟩ := bind_eq_ok.mp hrun
    have hmid : WellFormed mid := by
      have h := (hx.onlyPushes pool).later.2 hwf
      rwa [hfirst] at h
    have hafter : Extends mid after := by
      have h := ((hf a).onlyPushes mid).later.1
      rwa [hsecond] at h
    -- The second step came after the first, so the later pool is later than both.
    obtain ⟨ha, hfirst'⟩ := hx.again hwf hfirst (hafter.trans hlater)
    obtain ⟨hi, hsecond'⟩ := (hf a).again hmid hsecond hlater
    exact ⟨⟨a, ha, hi⟩, bind_eq_ok.mpr ⟨a, later, hfirst', hsecond'⟩⟩

theorem Recalls.mono {x : PoolM ConstIndex} {P Q : Pool → ConstIndex → Prop}
    (hx : Recalls x P) (h : ∀ {pool i}, P pool i → Q pool i) : Recalls x Q where
  onlyPushes := hx.onlyPushes
  again hwf hrun hlater := ⟨h (hx.again hwf hrun hlater).1, (hx.again hwf hrun hlater).2⟩

theorem recalls_text (value : String) :
    Recalls (internText value) fun pool i => pool.TextAt i value :=
  recalls_intern rfl

private theorem recalls_class (name : String) :
    Recalls (internClass name) fun pool i => pool.ClassAt i name := by
  refine ((recalls_text name).bind fun text => recalls_intern rfl).mono ?_
  intro pool i hparts
  obtain ⟨text, htext, hi⟩ := hparts
  exact ⟨text, hi, htext⟩

private theorem recalls_nameAndType (name descriptor : String) :
    Recalls (internNameAndType name descriptor)
      fun pool i => pool.ShapeAt i name descriptor := by
  refine ((recalls_text name).bind fun first =>
    (recalls_text descriptor).bind fun second => recalls_intern rfl).mono ?_
  intro pool i hparts
  obtain ⟨first, hfirst, second, hsecond, hi⟩ := hparts
  exact ⟨first, second, hi, hfirst, hsecond⟩

/-- A member is recalled by the constant that is made of its owner and its shape. -/
theorem recalls_member (m : MemberRef) (make : ConstIndex → ConstIndex → Constant)
    (hmake : ∀ owner shape, (make owner shape).isShared = true) :
    Recalls (do
        let owner ← internClass m.owner
        let shape ← internNameAndType m.name m.descriptor
        intern (make owner shape))
      fun pool i => ∃ owner, pool.ClassAt owner m.owner ∧
        ∃ shape, pool.ShapeAt shape m.name m.descriptor ∧ pool.At i (make owner shape) :=
  (recalls_class m.owner).bind fun owner =>
    (recalls_nameAndType m.name m.descriptor).bind fun shape =>
      recalls_intern (hmake owner shape)

/-! ## Insertions -/

/-- Looking up an index gives what the insertion put in. -/
def Insertion.LooksUp (pool : Pool) (i : ConstIndex) : Insertion → Prop
  | text value => pool.get i = .ok (.text value) ∧ pool.text i = .ok value
  | classRef name => pool.className i = .ok name
  | string value => ∃ text, pool.get i = .ok (.string text) ∧ pool.text text = .ok value
  | integer value => pool.get i = .ok (.integer value)
  | long value => pool.get i = .ok (.long value)
  | float bits => pool.get i = .ok (.float bits)
  | double bits => pool.get i = .ok (.double bits)
  | nameAndType name descriptor => pool.nameAndType i = .ok (name, descriptor)
  | field member =>
    (∃ owner shape, pool.get i = .ok (.fieldRef owner shape))
      ∧ pool.member i = .ok (member, false)
  | method member isInterface =>
    (∃ owner shape, pool.get i = .ok (.methodRef owner shape isInterface))
      ∧ pool.member i = .ok (member, isInterface)

/-- Numbers with a fraction are stored anew each time. -/
def Insertion.hasFraction : Insertion → Bool
  | float _ | double _ => true
  | _ => false

/-- Everything but a number with a fraction is recalled. -/
theorem Insertion.recalls {what : Insertion} (hwhat : what.hasFraction = false) :
    Recalls what.run fun pool i => what.LooksUp pool i := by
  cases what with
  | text value =>
    refine (recalls_text value).mono fun hi => ?_
    exact ⟨get_eq_ok.mpr hi, text_eq_ok.mpr hi⟩
  | classRef name => exact (recalls_class name).mono className_eq_ok.mpr
  | string value =>
    refine ((recalls_text value).bind fun text => recalls_intern rfl).mono ?_
    intro pool i hparts
    obtain ⟨text, htext, hi⟩ := hparts
    exact ⟨text, get_eq_ok.mpr hi, text_eq_ok.mpr htext⟩
  | integer value => exact (recalls_intern rfl).mono get_eq_ok.mpr
  | long value => exact (recalls_intern rfl).mono get_eq_ok.mpr
  | float bits => cases hwhat
  | double bits => cases hwhat
  | nameAndType name descriptor =>
    exact (recalls_nameAndType name descriptor).mono nameAndType_eq_ok.mpr
  | field member =>
    refine (recalls_member member .fieldRef fun _ _ => rfl).mono ?_
    intro pool i hparts
    obtain ⟨owner, howner, shape, hshape, hi⟩ := hparts
    exact ⟨⟨owner, shape, get_eq_ok.mpr hi⟩, member_eq_ok.mpr (.field hi hshape howner)⟩
  | method member isInterface =>
    refine (recalls_member member (.methodRef · · isInterface) fun _ _ => rfl).mono ?_
    intro pool i hparts
    obtain ⟨owner, howner, shape, hshape, hi⟩ := hparts
    exact ⟨⟨owner, shape, get_eq_ok.mpr hi⟩, member_eq_ok.mpr (.method hi hshape howner)⟩

/-- A number with a fraction stays where it was stored. -/
theorem Insertion.looksUp_of_hasFraction {what : Insertion} (hwhat : what.hasFraction = true)
    {pool after later : Pool} {i : ConstIndex} (hwf : WellFormed pool)
    (hrun : what.run pool = (.ok i, after)) (hlater : Extends after later) :
    what.LooksUp later i := by
  cases what with
  | float bits | double bits => exact get_eq_ok.mpr (hlater.stands (push_at hwf hrun))
  | _ => cases hwhat

/-- **What was inserted stays**: the index of a successful insertion leads to its content
in every later pool, and but for numbers with a fraction the same insertion finds it there
again. -/
theorem inserted_stays {pool after later : Pool} {what : Insertion} {i : ConstIndex}
    (hpool : Reachable pool) (hrun : what.run pool = (.ok i, after))
    (hlater : Grows after later) :
    what.LooksUp later i ∧ (what.hasFraction = false → what.run later = (.ok i, later)) := by
  have hextends := hlater.pushes.later.1
  cases hwhat : what.hasFraction with
  | true =>
    refine ⟨Insertion.looksUp_of_hasFraction hwhat hpool.wellFormed hrun hextends, ?_⟩
    intro hfalse
    cases hfalse
  | false =>
    obtain ⟨hfound, hagain⟩ :=
      (Insertion.recalls hwhat).again hpool.wellFormed hrun hextends
    exact ⟨hfound, fun _ => hagain⟩

/-- A stored pool with the text `A` in two slots and a class without a name. -/
def namelessClass : Bytes := [0, 4, 1, 0, 1, 65, 1, 0, 1, 65, 7, 0, 9]

/-- The class `A` is made with the first of the two texts, beside the class that was read,
and is found again behind a number that came later. -/
theorem namelessClass_keeps_inserted :
    ∃ pool after, Pool.read namelessClass = .ok (pool, [])
      ∧ (Insertion.classRef "A").run pool = (.ok 4, after)
      ∧ ((Insertion.float 0).run after).2.className 4 = .ok "A"
      ∧ (Insertion.classRef "A").run ((Insertion.float 0).run after).2
        = (.ok 4, ((Insertion.float 0).run after).2) := by
  have hpool : ∃ pool, Pool.read namelessClass = .ok (pool, []) ∧ pool.slots
      = #[none, some (.text "A"), some (.text "A"), some (.classRef 9)] := ⟨_, rfl, rfl⟩
  obtain ⟨pool, hread, hslots⟩ := hpool
  have hwf := read_wellFormed hread
  have htext : internText "A" pool = (.ok 1, pool) := by
    have hfirst : pool.firstIndex[Constant.text "A"]? = some 1 := by
      rw [hwf.first, hslots]
      rfl
    simp only [internText, intern, hfirst]
  have hclass : pool.firstIndex[Constant.classRef 1]? = none := by
    rw [hwf.first, hslots]
    rfl
  have hfits : pool.slots.size + (Constant.classRef 1).width ≤ 65535 := by
    simp [hslots, Constant.width]
  obtain ⟨after, hpush, -, -⟩ := push_fits hfits
  have hrun : (Insertion.classRef "A").run pool = (.ok 4, after) := by
    refine bind_eq_ok.mpr ⟨1, pool, htext, ?_⟩
    simp only [intern, hclass, hpush, hslots]
    rfl
  have hstays := inserted_stays ⟨pool, .inr ⟨namelessClass, [], hread⟩, .refl⟩ hrun
    (.single (.entry (.float 0) after))
  exact ⟨pool, after, hread, hrun, hstays.1, hstays.2 rfl⟩

end Classdesk.Pool
