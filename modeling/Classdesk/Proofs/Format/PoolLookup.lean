import Classdesk.Format.Pool
import Classdesk.Proofs.Reading

/-!
# What stands at an index of the pool

References lead from constant to constant: a field refers to a class and to a name
with a descriptor, and each of those refers to texts. The relations below follow
these references through the slots alone. Looking something up succeeds exactly if
the relation holds:

> `member_eq_ok`: `pool.member i = .ok (m, b) ↔ pool.MemberAt i m b`
-/

namespace Classdesk.Pool

/-- A constant starts in the slot with this index. -/
def At (pool : Pool) (i : ConstIndex) (c : Constant) : Prop :=
  pool.slots[i.toNat]? = some (some c)

/-- A text stands at an index. -/
def TextAt (pool : Pool) (i : ConstIndex) (value : String) : Prop := pool.At i (.text value)

/-- A class of this name stands at an index. -/
def ClassAt (pool : Pool) (i : ConstIndex) (name : String) : Prop :=
  ∃ text, pool.At i (.classRef text) ∧ pool.TextAt text name

/-- A name with a descriptor stands at an index. -/
def ShapeAt (pool : Pool) (i : ConstIndex) (name descriptor : String) : Prop :=
  ∃ first second, pool.At i (.nameAndType first second)
    ∧ pool.TextAt first name ∧ pool.TextAt second descriptor

/-- A field or a method stands at an index; only methods can be those of interfaces. -/
inductive MemberAt (pool : Pool) (i : ConstIndex) (m : MemberRef) : Bool → Prop
  | field {owner shape : ConstIndex} (here : pool.At i (.fieldRef owner shape))
      (hshape : pool.ShapeAt shape m.name m.descriptor) (howner : pool.ClassAt owner m.owner) :
      MemberAt pool i m false
  | method {owner shape : ConstIndex} {isInterface : Bool}
      (here : pool.At i (.methodRef owner shape isInterface))
      (hshape : pool.ShapeAt shape m.name m.descriptor) (howner : pool.ClassAt owner m.owner) :
      MemberAt pool i m isInterface

variable {pool : Pool} {i : ConstIndex}

/-- A constant is got exactly where it starts. -/
@[simp] theorem get_eq_ok {c : Constant} : pool.get i = .ok c ↔ pool.At i c := by
  unfold get At
  split
  next d hd => simp [hd]
  next hnone =>
    simp only [reduceCtorEq, false_iff]
    exact hnone c

@[simp] theorem text_eq_ok {value : String} :
    pool.text i = .ok value ↔ pool.TextAt i value := by
  simp only [text, TextAt, Reading.except_bind_eq_ok, get_eq_ok]
  constructor
  · rintro ⟨c, hc, h⟩
    cases c <;> cases h
    exact hc
  · intro h
    exact ⟨_, h, rfl⟩

/-- The name of a class is found through its reference. -/
@[simp] theorem className_eq_ok {name : String} :
    pool.className i = .ok name ↔ pool.ClassAt i name := by
  simp only [className, ClassAt, Reading.except_bind_eq_ok, get_eq_ok]
  constructor
  · rintro ⟨c, hc, h⟩
    cases c with
    | classRef text => exact ⟨text, hc, text_eq_ok.mp h⟩
    | _ => cases h
  · rintro ⟨text, hc, htext⟩
    exact ⟨_, hc, text_eq_ok.mpr htext⟩

/-- A name with a descriptor is found through both references. -/
@[simp] theorem nameAndType_eq_ok {name descriptor : String} :
    pool.nameAndType i = .ok (name, descriptor) ↔ pool.ShapeAt i name descriptor := by
  simp only [nameAndType, ShapeAt, Reading.except_bind_eq_ok, get_eq_ok]
  constructor
  · rintro ⟨c, hc, h⟩
    cases c with
    | nameAndType first second =>
      simp only [Reading.except_bind_eq_ok, text_eq_ok] at h
      obtain ⟨_, hname, _, hdescriptor, h⟩ := h
      cases h
      exact ⟨first, second, hc, hname, hdescriptor⟩
    | _ => cases h
  · rintro ⟨first, second, hc, hname, hdescriptor⟩
    refine ⟨_, hc, ?_⟩
    simp only [Reading.except_bind_eq_ok, text_eq_ok]
    exact ⟨name, hname, descriptor, hdescriptor, rfl⟩

/-- The parts of a member are found through its references. -/
private theorem resolve_eq_ok {owner shape : ConstIndex} {isInterface b : Bool} {m : MemberRef} :
    member.resolve pool owner shape isInterface = .ok (m, b)
      ↔ pool.ShapeAt shape m.name m.descriptor ∧ pool.ClassAt owner m.owner
        ∧ isInterface = b := by
  simp only [member.resolve, Reading.except_bind_eq_ok, Prod.exists, nameAndType_eq_ok,
    className_eq_ok]
  constructor
  · rintro ⟨name, descriptor, hshape, ownerName, howner, h⟩
    cases h
    exact ⟨hshape, howner, rfl⟩
  · rintro ⟨hshape, howner, rfl⟩
    exact ⟨_, _, hshape, _, howner, rfl⟩

/-- A member is found exactly if its references lead to its parts. -/
@[simp] theorem member_eq_ok {m : MemberRef} {b : Bool} :
    pool.member i = .ok (m, b) ↔ pool.MemberAt i m b := by
  simp only [member, Reading.except_bind_eq_ok, get_eq_ok]
  constructor
  · rintro ⟨c, hc, h⟩
    cases c with
    | fieldRef owner shape =>
      obtain ⟨hshape, howner, rfl⟩ := resolve_eq_ok.mp h
      exact .field hc hshape howner
    | methodRef owner shape isInterface =>
      obtain ⟨hshape, howner, rfl⟩ := resolve_eq_ok.mp h
      exact .method hc hshape howner
    | _ => cases h
  · rintro (⟨hc, hshape, howner⟩ | ⟨hc, hshape, howner⟩)
    · exact ⟨_, hc, resolve_eq_ok.mpr ⟨hshape, howner, rfl⟩⟩
    · exact ⟨_, hc, resolve_eq_ok.mpr ⟨hshape, howner, rfl⟩⟩

end Classdesk.Pool
