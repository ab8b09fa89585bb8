import Classdesk.Proofs.Format.PoolCapacity
import Classdesk.Proofs.Format.PoolRecall

/-!
# Insertions that fail

A reference is inserted part by part, and the pool may fill up after any of them. The
parts that were inserted before stay, so a failed insertion is not undone. It is harmless
all the same:

> `failed_insertion_harmless`: what was in the pool is still there, only parts of what was
> asked for are new, and asking again fails in the same way without changing anything.

Why asking again changes nothing: every part that was inserted the first time is found
again at its index (`Recalls`), so the second run follows the first up to the constant that
did not fit, and the pool has not become shorter. `Fails` says this of one step and is put
together along `bind`, like `Recalls`. What a step that succeeds leaves behind counts too,
because a later step may fail; `Assembles` is a step with all three properties.
-/

namespace Classdesk.Pool

/-! ## What is left behind -/

/-- The pool got longer by some parts, in one slot each, which are parts in every later pool
as well. -/
def LeavesOnly (Part : Pool → Constant → Prop) (before after : Pool) : Prop :=
  ∃ added : List Constant, after.slots.toList = before.slots.toList ++ added.map some
    ∧ ∀ later, Extends after later → ∀ c ∈ added, Part later c

private theorem leavesOnly_refl (Part : Pool → Constant → Prop) (pool : Pool) :
    LeavesOnly Part pool pool :=
  ⟨[], by rw [List.map_nil, List.append_nil], fun _ _ c hc => absurd hc List.not_mem_nil⟩

/-- What two steps leave behind adds up. -/
theorem LeavesOnly.trans {Part : Pool → Constant → Prop} {first second third : Pool}
    (h : LeavesOnly Part first second) (h' : LeavesOnly Part second third)
    (hlater : Extends second third) : LeavesOnly Part first third := by
  obtain ⟨added, hadded, hparts⟩ := h
  obtain ⟨added', hadded', hparts'⟩ := h'
  refine ⟨added ++ added', by rw [hadded', hadded, List.map_append, List.append_assoc], ?_⟩
  intro later hthird c hc
  rcases List.mem_append.mp hc with hold | hnew
  · exact hparts later (hlater.trans hthird) c hold
  · exact hparts' later hthird c hnew

/-- Parts may be described more loosely. -/
theorem LeavesOnly.mono {P Q : Pool → Constant → Prop} {before after : Pool}
    (h : LeavesOnly P before after)
    (hPQ : ∀ {later c}, Extends after later → P later c → Q later c) :
    LeavesOnly Q before after := by
  obtain ⟨added, hadded, hparts⟩ := h
  exact ⟨added, hadded, fun later hlater c hc => hPQ hlater (hparts later hlater c hc)⟩

/-! ## Steps that fail -/

/-- Two steps in a row fail if the first one does, or the second one after it. -/
theorem bind_eq_error {α β : Type} {x : PoolM α} {f : α → PoolM β} {pool after : Pool}
    {e : ClassFault} :
    (x >>= f) pool = (.error e, after) ↔
      x pool = (.error e, after) ∨
        ∃ a mid, x pool = (.ok a, mid) ∧ f a mid = (.error e, after) := by
  rw [bind_apply]
  cases hx : x pool with
  | mk result next =>
    cases result with
    | ok a =>
      constructor
      · intro hf
        exact .inr ⟨a, next, rfl, hf⟩
      · intro hsteps
        rcases hsteps with hfirst | ⟨_, _, ha, hf⟩
        · cases hfirst
        · cases ha
          exact hf
    | error e' =>
      constructor
      · intro hfirst
        cases hfirst
        exact .inl rfl
      · intro hsteps
        rcases hsteps with hfirst | ⟨_, _, ha, -⟩
        · cases hfirst
          rfl
        · cases ha

/-- A step fails for the reasons of `Fault`, leaves only parts behind, and then fails again
for the same reason and leaves nothing more. -/
structure Fails {α : Type} (x : PoolM α) (Fault : ClassFault → Prop)
    (Part : Pool → Constant → Prop) : Prop where
  onlyPushes : OnlyPushes x
  reason : ∀ {pool after : Pool} {e : ClassFault}, x pool = (.error e, after) → Fault e
  leaves : ∀ {pool after : Pool} {e : ClassFault}, WellFormed pool →
    x pool = (.error e, after) → LeavesOnly Part pool after
  again : ∀ {pool after : Pool} {e : ClassFault}, WellFormed pool →
    x pool = (.error e, after) → x after = (.error e, after)

/-- A step that is recalled if it succeeds, and leaves only parts behind either way. -/
structure Assembles (x : PoolM ConstIndex) (Content : Pool → ConstIndex → Prop)
    (Part : Pool → Constant → Prop) : Prop where
  recalls : Recalls x Content
  built : ∀ {pool after : Pool} {i : ConstIndex}, WellFormed pool →
    x pool = (.ok i, after) → LeavesOnly Part pool after
  fails : Fails x (· = .poolFull) Part

/-- The parts of two steps in a row: those of the first, and those of the second, made with
what the first one returned. -/
def BothParts (P : Pool → Constant → Prop) (Content : Pool → ConstIndex → Prop)
    (Q : ConstIndex → Pool → Constant → Prop) (pool : Pool) (c : Constant) : Prop :=
  P pool c ∨ ∃ a, Content pool a ∧ Q a pool c

/-- A step that succeeds leads to a well-formed pool. -/
theorem Assembles.wellFormed {x : PoolM ConstIndex} {Content : Pool → ConstIndex → Prop}
    {Part : Pool → Constant → Prop} (hx : Assembles x Content Part) {pool mid : Pool}
    {i : ConstIndex} (hwf : WellFormed pool) (hrun : x pool = (.ok i, mid)) :
    WellFormed mid := by
  have h := (hx.recalls.onlyPushes pool).later.2 hwf
  rwa [hrun] at h

/-- After a first step that succeeded, what the second one leaves adds to what it left. -/
theorem Assembles.leaves_bind {β : Type} {x : PoolM ConstIndex} {f : ConstIndex → PoolM β}
    {Content : Pool → ConstIndex → Prop} {P : Pool → Constant → Prop}
    {Q : ConstIndex → Pool → Constant → Prop} (hx : Assembles x Content P)
    {a : ConstIndex} (hf : OnlyPushes (f a)) {pool mid : Pool} (hwf : WellFormed pool)
    (hfirst : x pool = (.ok a, mid)) (hsecond : LeavesOnly (Q a) mid (f a mid).2) :
    LeavesOnly (BothParts P Content Q) pool (f a mid).2 := by
  have hlater : Extends mid (f a mid).2 := (hf mid).later.1
  refine ((hx.built hwf hfirst).mono fun _ hP => .inl hP).trans (hsecond.mono ?_) hlater
  intro later c hthird hQ
  exact .inr ⟨a, (hx.recalls.again hwf hfirst (hlater.trans hthird)).1, hQ⟩

/-- A step that fails behind one that succeeded: the first is recalled when both are made again, so
the second fails at the same constant. -/
theorem Assembles.thenFails {β : Type} {x : PoolM ConstIndex} {f : ConstIndex → PoolM β}
    {Content : Pool → ConstIndex → Prop} {Fault : ClassFault → Prop}
    {P : Pool → Constant → Prop} {Q : ConstIndex → Pool → Constant → Prop}
    (hx : Assembles x Content P) (hf : ∀ a, Fails (f a) Fault (Q a)) (hfull : Fault .poolFull) :
    Fails (x >>= f) Fault (BothParts P Content Q) where
  onlyPushes := hx.fails.onlyPushes.bind fun a => (hf a).onlyPushes
  reason {pool after e} h := by
    rcases bind_eq_error.mp h with hfirst | ⟨a, mid, -, hsecond⟩
    · rw [hx.fails.reason hfirst]
      exact hfull
    · exact (hf a).reason hsecond
  leaves {pool after e} hwf h := by
    rcases bind_eq_error.mp h with hfirst | ⟨a, mid, hfirst, hsecond⟩
    · exact (hx.fails.leaves hwf hfirst).mono fun _ hP => .inl hP
    · have hmid := hx.wellFormed hwf hfirst
      have hleft := (hf a).leaves hmid hsecond
      have hboth := hx.leaves_bind (hf a).onlyPushes hwf hfirst (by rw [hsecond]; exact hleft)
      rwa [hsecond] at hboth
  again {pool after e} hwf h := by
    rcases bind_eq_error.mp h with hfirst | ⟨a, mid, hfirst, hsecond⟩
    · exact bind_eq_error.mpr (.inl (hx.fails.again hwf hfirst))
    · -- The first step is found again at its index, so the second one is asked again.
      have hmid := hx.wellFormed hwf hfirst
      have hlater : Extends mid after := by
        have h := ((hf a).onlyPushes mid).later.1
        rwa [hsecond] at h
      have hfirst' := (hx.recalls.again hwf hfirst hlater).2
      exact bind_eq_error.mpr (.inr ⟨a, after, hfirst', (hf a).again hmid hsecond⟩)

private theorem Fails.mono {α : Type} {x : PoolM α} {Fault : ClassFault → Prop}
    {P Q : Pool → Constant → Prop} (hx : Fails x Fault P)
    (h : ∀ {pool c}, P pool c → Q pool c) : Fails x Fault Q where
  onlyPushes := hx.onlyPushes
  reason := hx.reason
  leaves hwf hrun := (hx.leaves hwf hrun).mono fun _ hP => h hP
  again := hx.again

/-- Two steps that assemble something assemble it together. -/
theorem Assembles.bind {x : PoolM ConstIndex} {f : ConstIndex → PoolM ConstIndex}
    {Content : Pool → ConstIndex → Prop} {P : Pool → Constant → Prop}
    {Content' : ConstIndex → Pool → ConstIndex → Prop}
    {Q : ConstIndex → Pool → Constant → Prop} (hx : Assembles x Content P)
    (hf : ∀ a, Assembles (f a) (Content' a) (Q a)) :
    Assembles (x >>= f) (fun pool i => ∃ a, Content pool a ∧ Content' a pool i)
      (BothParts P Content Q) where
  recalls := hx.recalls.bind fun a => (hf a).recalls
  built {pool after i} hwf h := by
    obtain ⟨a, mid, hfirst, hsecond⟩ := bind_eq_ok.mp h
    have hleft := (hf a).built (hx.wellFormed hwf hfirst) hsecond
    have hboth := hx.leaves_bind (hf a).fails.onlyPushes hwf hfirst
      (by rw [hsecond]; exact hleft)
    rwa [hsecond] at hboth
  fails := hx.thenFails (fun a => (hf a).fails) rfl

private theorem Assembles.mono {x : PoolM ConstIndex} {C D : Pool → ConstIndex → Prop}
    {P Q : Pool → Constant → Prop} (hx : Assembles x C P)
    (hC : ∀ {pool i}, C pool i → D pool i) (hP : ∀ {pool c}, P pool c → Q pool c) :
    Assembles x D Q where
  recalls := hx.recalls.mono hC
  built hwf hrun := (hx.built hwf hrun).mono fun _ h => hP h
  fails := hx.fails.mono hP

/-! ## Single constants -/

/-- A step that fails for want of room and then changes nothing. -/
theorem fails_of_unchanged {x : PoolM ConstIndex} (hx : OnlyPushes x)
    (h : ∀ {pool after e}, x pool = (.error e, after) → e = .poolFull ∧ after = pool) :
    Fails x (· = .poolFull) fun _ _ => False where
  onlyPushes := hx
  reason hrun := (h hrun).1
  leaves {pool after e} _ hrun := by
    rw [(h hrun).2]
    exact leavesOnly_refl _ pool
  again {pool after e} _ hrun := by
    have hsame := (h hrun).2
    rw [hsame] at hrun ⊢
    exact hrun

/-- Pushing a constant fails only if it does not fit, which changes nothing. -/
theorem push_eq_error {c : Constant} {pool after : Pool} {e : ClassFault}
    (h : push c pool = (.error e, after)) : e = .poolFull ∧ after = pool := by
  rcases Nat.lt_or_ge 65535 (pool.slots.size + c.width) with hfull | hfits
  · rw [push_full hfull] at h
    cases h
    exact ⟨rfl, rfl⟩
  · obtain ⟨next, hpush, -, -⟩ := push_fits hfits
    rw [hpush] at h
    cases h

/-- Interning a constant fails only if it is pushed and does not fit. -/
private theorem intern_eq_error {c : Constant} {pool after : Pool} {e : ClassFault}
    (h : intern c pool = (.error e, after)) : e = .poolFull ∧ after = pool := by
  cases hfound : pool.firstIndex[c]? with
  | some i =>
    simp only [intern, hfound] at h
    cases h
  | none =>
    simp only [intern, hfound] at h
    exact push_eq_error h

/-- A single constant leaves nothing behind if it fails. -/
theorem fails_intern (c : Constant) : Fails (intern c) (· = .poolFull) fun _ _ => False :=
  fails_of_unchanged (onlyPushes_intern c) intern_eq_error

/-- A single shared constant leaves at most itself behind. -/
theorem assembles_intern {c : Constant} (hc : c.isShared = true) (hslots : c.slots = [some c]) :
    Assembles (intern c) (fun pool i => pool.At i c) fun _ k => k = c where
  recalls := recalls_intern hc
  built {pool after i} _ h := by
    cases hfound : pool.firstIndex[c]? with
    | some j =>
      simp only [intern, hfound] at h
      cases h
      exact leavesOnly_refl _ pool
    | none =>
      simp only [intern, hfound] at h
      refine ⟨[c], by rw [(push_ok h).2, hslots]; rfl, ?_⟩
      intro later _ k hk
      exact List.mem_singleton.mp hk
  fails := (fails_intern c).mono fun hfalse => hfalse.elim

private theorem assembles_text (value : String) :
    Assembles (internText value) (fun pool i => pool.TextAt i value)
      fun _ c => c = .text value :=
  assembles_intern rfl rfl

/-! ## Insertions -/

/-- The constants that a class is made of. -/
inductive ClassPart (pool : Pool) (name : String) : Constant → Prop
  | text : ClassPart pool name (.text name)
  | whole {text : ConstIndex} (h : pool.TextAt text name) : ClassPart pool name (.classRef text)

/-- The constants that a name with a descriptor is made of. -/
inductive ShapePart (pool : Pool) (name descriptor : String) : Constant → Prop
  | name : ShapePart pool name descriptor (.text name)
  | descriptor : ShapePart pool name descriptor (.text descriptor)
  | whole {first second : ConstIndex} (hfirst : pool.TextAt first name)
      (hsecond : pool.TextAt second descriptor) :
      ShapePart pool name descriptor (.nameAndType first second)

/-- The constants that something is made of, itself not among them. -/
def Insertion.Part (pool : Pool) (c : Constant) : Insertion → Prop
  | classRef name => c = .text name
  | string value => c = .text value
  | nameAndType name descriptor => c = .text name ∨ c = .text descriptor
  | field m | method m _ => ClassPart pool m.owner c ∨ ShapePart pool m.name m.descriptor c
  | text _ | integer _ | long _ | float _ | double _ => False

/-- A class leaves its name behind, or its name and itself. -/
theorem assembles_class (name : String) :
    Assembles (internClass name) (fun pool i => pool.ClassAt i name)
      fun pool c => ClassPart pool name c := by
  refine ((assembles_text name).bind fun text => assembles_intern rfl rfl).mono ?_ ?_
  · intro pool i hparts
    obtain ⟨text, htext, hi⟩ := hparts
    exact ⟨text, hi, htext⟩
  · intro pool c hparts
    rcases hparts with htext | ⟨text, htext, hwhole⟩
    · exact htext ▸ .text
    · exact hwhole ▸ .whole htext

private theorem assembles_nameAndType (name descriptor : String) :
    Assembles (internNameAndType name descriptor)
      (fun pool i => pool.ShapeAt i name descriptor)
      fun pool c => ShapePart pool name descriptor c := by
  refine ((assembles_text name).bind fun first => (assembles_text descriptor).bind fun second =>
    assembles_intern rfl rfl).mono ?_ ?_
  · intro pool i hparts
    obtain ⟨first, hfirst, second, hsecond, hi⟩ := hparts
    exact ⟨first, second, hi, hfirst, hsecond⟩
  · intro pool c hparts
    rcases hparts with hname | ⟨first, hfirst, hdescriptor | ⟨second, hsecond, hwhole⟩⟩
    · exact hname ▸ .name
    · exact hdescriptor ▸ .descriptor
    · exact hwhole ▸ .whole hfirst hsecond

/-- A member fails with parts of its owner and of its shape. -/
theorem fails_member (m : MemberRef) (make : ConstIndex → ConstIndex → Constant) :
    Fails (do
        let owner ← internClass m.owner
        let shape ← internNameAndType m.name m.descriptor
        intern (make owner shape))
      (· = .poolFull)
      fun pool c => ClassPart pool m.owner c ∨ ShapePart pool m.name m.descriptor c := by
  have hshape : ∀ owner, Fails (do
        let shape ← internNameAndType m.name m.descriptor
        intern (make owner shape)) (· = .poolFull) _ :=
    fun owner => (assembles_nameAndType m.name m.descriptor).thenFails
      (fun shape => fails_intern (make owner shape)) rfl
  refine ((assembles_class m.owner).thenFails hshape rfl).mono ?_
  intro pool c hparts
  rcases hparts with howner | ⟨owner, -, hshape | ⟨shape, -, hfalse⟩⟩
  · exact .inl howner
  · exact .inr hshape
  · exact hfalse.elim

/-- A constant that refers to one text fails with that text. -/
theorem fails_of_text (value : String) (make : ConstIndex → Constant) :
    Fails (do intern (make (← internText value))) (· = .poolFull)
      fun _ c => c = .text value := by
  refine ((assembles_text value).thenFails (fun i => fails_intern (make i)) rfl).mono ?_
  intro pool c hparts
  rcases hparts with htext | ⟨_, -, hfalse⟩
  · exact htext
  · exact hfalse.elim

/-- An insertion fails for want of room, with parts of what was asked for. -/
theorem Insertion.fails (what : Insertion) :
    Fails what.run (· = .poolFull) fun pool c => what.Part pool c := by
  cases what with
  | classRef name => exact fails_of_text name .classRef
  | string value => exact fails_of_text value .string
  | nameAndType name descriptor =>
    refine ((assembles_text name).thenFails
      (fun first => fails_of_text descriptor (.nameAndType first)) rfl).mono ?_
    intro pool c hparts
    rcases hparts with hname | ⟨_, -, hdescriptor⟩
    · exact .inl hname
    · exact .inr hdescriptor
  | field m => exact fails_member m .fieldRef
  | method m isInterface => exact fails_member m (.methodRef · · isInterface)
  | float bits | double bits => exact fails_of_unchanged (onlyPushes_push rfl) push_eq_error
  | text value => exact fails_intern _
  | integer value | long value => exact fails_intern _

/-- Why an attribute cannot be made: there is no room for its name, or its body cannot be
written. -/
def AttributeFault {α : Type} [AttributeBody α] (body : α) (e : ClassFault) : Prop :=
  e = .poolFull ∨ ∃ fault, Codec.write body = .error fault ∧ e = .stream fault

/-- With its name in the pool, an attribute depends on its body alone. -/
theorem fails_body {α : Type} [AttributeBody α] (body : α) (name : ConstIndex) :
    Fails (match (Codec.write body : Except StreamFault Bytes) with
        | .ok info => pure { name, info }
        | .error fault => throw (.stream fault) : PoolM Attribute)
      (AttributeFault body) fun _ _ => False := by
  cases hwrite : (Codec.write body : Except StreamFault Bytes) with
  | ok info =>
    have hok : ∀ {pool after : Pool} {e : ClassFault},
        ¬ (pure ⟨name, info⟩ : PoolM Attribute) pool = (.error e, after) := by
      intro pool after e h
      cases h
    exact ⟨fun _ => .refl, fun h => absurd h hok, fun _ h => absurd h hok,
      fun _ h => absurd h hok⟩
  | error fault =>
    have hsame : ∀ {pool after : Pool} {e : ClassFault},
        (throw (.stream fault) : PoolM Attribute) pool = (.error e, after) →
          e = .stream fault ∧ after = pool := by
      intro pool after e h
      cases h
      exact ⟨rfl, rfl⟩
    refine ⟨fun _ => .refl, fun h => .inr ⟨fault, hwrite, (hsame h).1⟩, ?_, ?_⟩
    · intro pool after e _ h
      rw [(hsame h).2]
      exact leavesOnly_refl _ pool
    · intro pool after e _ h
      obtain ⟨rfl, rfl⟩ := hsame h
      rfl

/-- An attribute fails with its name left behind, or because its body cannot be written. -/
theorem fails_attribute {α : Type} [AttributeBody α] (body : α) :
    Fails (internAttribute body) (AttributeFault body)
      fun _ c => c = .text (AttributeBody.name α) := by
  refine ((assembles_text (AttributeBody.name α)).thenFails (fails_body body) (.inl rfl)).mono ?_
  intro pool c hparts
  rcases hparts with hname | ⟨_, -, hfalse⟩
  · exact hname
  · exact hfalse.elim

/-! ## Bodies that cannot be written -/

/-- A value that cannot be written has a table that is too long. -/
def OnlyOverlong (α : Type) [Codec α] : Prop :=
  ∀ (a : α) (fault : StreamFault), Codec.write a = .error fault → fault = .tableTooLong

/-- A list whose elements can all be written fails only by its length. -/
private theorem onlyOverlong_table {α : Type} [Codec α]
    (h : ∀ a : α, ∃ bs, Codec.write a = .ok bs) : OnlyOverlong (List α) := by
  intro as fault hwrite
  by_cases hlen : as.length < 65536
  · obtain ⟨bs, hbs⟩ := (writeEntries_iff Codec.write as).mpr fun a _ => h a
    simp only [Codec.write, if_pos hlen, hbs] at hwrite
    cases hwrite
  · simp only [Codec.write, if_neg hlen] at hwrite
    cases hwrite
    rfl

private theorem onlyOverlong_initialValue : OnlyOverlong InitialValue := by
  intro v fault hwrite
  cases hwrite

private theorem onlyOverlong_lineTable : OnlyOverlong LineTable := by
  intro t fault hwrite
  exact onlyOverlong_table (fun e : LineEntry => ⟨_, rfl⟩) t.entries fault hwrite

private theorem onlyOverlong_code : OnlyOverlong Code := by
  intro c fault hwrite
  have hhandlers := onlyOverlong_table (fun h : Handler => ⟨_, rfl⟩) c.handlers
  have hattributes := onlyOverlong_table (fun a : Attribute => ⟨_, rfl⟩) c.attributes
  rcases Reading.except_bind_eq_error.mp hwrite with hfirst | ⟨handlers, -, hrest⟩
  · exact hhandlers fault hfirst
  · rcases Reading.except_bind_eq_error.mp hrest with hsecond | ⟨attributes, -, hdone⟩
    · exact hattributes fault hsecond
    · cases hdone

/-! ## Harmless failures -/

/-- What a failed step has done to a pool, and what it does next time. -/
structure HarmlessFailure {α : Type} (x : PoolM α) (Part : Pool → Constant → Prop)
    (e : ClassFault) (before after : Pool) (added : List Constant) : Prop where
  /-- Every index that was valid leads to the same constant. -/
  kept : ∀ i c, before.get i = .ok c → after.get i = .ok c
  /-- The slots that are new hold the added constants, and nothing else is new. -/
  slots : after.slots.toList = before.slots.toList ++ added.map some
  parts : ∀ c ∈ added, Part after c
  /-- The pool can be written if it could be before, unless an added text is too long. -/
  writes : (∃ bs, before.write = .ok bs) →
    (∀ value, Constant.text value ∈ added → FitsLength value) → ∃ bs, after.write = .ok bs
  again : x after = (.error e, after)

/-- Appended constants are held beside the old ones. -/
theorem holds_of_added {before after : Pool} {added : List Constant}
    (h : after.slots.toList = before.slots.toList ++ added.map some) {c : Constant}
    (hc : after.Holds c) : before.Holds c ∨ c ∈ added := by
  rw [← mem_constants_iff, h, List.filterMap_append, List.mem_append, mem_constants_iff] at hc
  rcases hc with hold | hnew
  · exact .inl hold
  · rw [List.filterMap_map] at hnew
    simp only [Function.id_comp, List.filterMap_some] at hnew
    exact .inr hnew

/-- A failure of such a step is harmless. -/
theorem Fails.harmless {α : Type} {x : PoolM α} {Fault : ClassFault → Prop}
    {Part : Pool → Constant → Prop} (hx : Fails x Fault Part) {pool after : Pool}
    {e : ClassFault} (hwf : WellFormed pool) (hrun : x pool = (.error e, after)) :
    ∃ added, HarmlessFailure x Part e pool after added := by
  obtain ⟨added, hslots, hparts⟩ := hx.leaves hwf hrun
  have hlater : Extends pool after := by
    have h := (hx.onlyPushes pool).later.1
    rwa [hrun] at h
  refine ⟨added, ?_, hslots, hparts after (.refl after), ?_, hx.again hwf hrun⟩
  · intro i c hc
    exact get_eq_ok.mpr (hlater.stands (get_eq_ok.mp hc))
  · intro hbefore hfit
    refine (write_iff after).mpr fun value hvalue => ?_
    rcases holds_of_added hslots hvalue with hold | hnew
    · exact (write_iff pool).mp hbefore value hold
    · exact hfit value hnew

/-- **A failed insertion is harmless**: it keeps what was there, leaves only parts of what
was asked for, and fails the same way when it is made again, from then on without changing
the pool. -/
theorem failed_insertion_harmless {pool : Pool} (hpool : Reachable pool) :
    (∀ (what : Insertion) (e : ClassFault) (after : Pool),
        what.run pool = (.error e, after) →
          e = .poolFull ∧ ∃ added,
            HarmlessFailure what.run (fun pool c => what.Part pool c) e pool after added)
      ∧ (∀ (α : Type) [AttributeBody α] (body : α) (e : ClassFault) (after : Pool),
          internAttribute body pool = (.error e, after) →
            AttributeFault body e ∧ ∃ added,
              HarmlessFailure (internAttribute body)
                (fun _ c => c = .text (AttributeBody.name α)) e pool after added)
      ∧ OnlyOverlong InitialValue ∧ OnlyOverlong LineTable ∧ OnlyOverlong Code := by
  have hwf := hpool.wellFormed
  refine ⟨?_, ?_, onlyOverlong_initialValue, onlyOverlong_lineTable, onlyOverlong_code⟩
  · intro what e after hrun
    exact ⟨what.fails.reason hrun, what.fails.harmless hwf hrun⟩
  · intro α _ body e after hrun
    exact ⟨(fails_attribute body).reason hrun, (fails_attribute body).harmless hwf hrun⟩

/-- A pool can be filled with one number, up to any number of slots. -/
theorem exists_floats (n : Nat) (hn : n ≤ 65534) :
    ∃ pool, Grows empty pool ∧ pool.slots.size = n + 1
      ∧ ∀ c, pool.Holds c → c = .float 0 := by
  induction n with
  | zero =>
    refine ⟨empty, .refl, rfl, fun c hc => ?_⟩
    rw [← mem_constants_iff] at hc
    cases hc
  | succ n ih =>
    obtain ⟨pool, hgrows, hsize, hholds⟩ := ih (by omega)
    -- Numbers with a fraction are not shared, so another slot is taken each time.
    have hfits : pool.slots.size + (Constant.float 0).width ≤ 65535 := by
      rw [hsize]
      exact Nat.succ_le_succ hn
    obtain ⟨after, hpush, hafter⟩ := push_size hfits
    have hstep : Inserts pool after := by
      have h := Inserts.entry (.float 0) pool
      rwa [show (Insertion.float 0).run pool = _ from hpush] at h
    refine ⟨after, hgrows.tail hstep, hafter.trans (by rw [hsize]; rfl), ?_⟩
    intro c hc
    obtain ⟨j, hj⟩ := hc
    rcases (getElem?_of_appended (push_ok hpush).2).mp hj with hold | ⟨-, hnew⟩
    · exact hholds c ⟨j, hold⟩
    · exact hnew.symm

/-- In a pool with one free slot, a class finds room for its name and none for itself. The
name stays, and asking again adds nothing. -/
theorem lastSlot_keeps_name :
    ∃ pool after, Reachable pool
      ∧ (Insertion.classRef "A").run pool = (.error .poolFull, after)
      ∧ after.slots.toList = pool.slots.toList ++ [some (.text "A")]
      ∧ (Insertion.classRef "A").run after = (.error .poolFull, after) := by
  obtain ⟨pool, hgrows, hsize, hholds⟩ := exists_floats 65533 (by omega)
  have hpool : Reachable pool := ⟨empty, .inl rfl, hgrows⟩
  have hname : ¬ pool.Holds (.text "A") := by
    intro h
    cases hholds _ h
  obtain ⟨after, hfirst, hwf, hslots⟩ := hpool.wellFormed.intern_new hname
    (by rw [hsize]; exact Nat.le_refl 65535)
  have hafter : after.slots.size = 65535 := by
    rw [← Array.length_toList, hslots, List.length_append, Array.length_toList, hsize]
    rfl
  -- No class was in the pool, and the name has not made one.
  have hclass : ¬ after.Holds (.classRef (UInt16.ofNat pool.slots.size)) := by
    intro h
    obtain ⟨j, hj⟩ := h
    rcases (getElem?_of_appended hslots).mp hj with hold | ⟨-, hnew⟩
    · cases hholds _ ⟨j, hold⟩
    · cases hnew
  have hrun : (Insertion.classRef "A").run pool = (.error .poolFull, after) := by
    refine bind_eq_error.mpr (.inr ⟨_, after, hfirst, ?_⟩)
    rw [intern_of_not_holds hwf hclass]
    refine push_full ?_
    rw [hafter]
    exact Nat.lt_succ_self 65535
  obtain ⟨-, added, hharmless⟩ := (failed_insertion_harmless hpool).1 _ _ _ hrun
  exact ⟨pool, after, hpool, hrun, hslots, hharmless.again⟩

end Classdesk.Pool
