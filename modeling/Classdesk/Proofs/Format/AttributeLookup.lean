import Classdesk.Proofs.Format.Codecs
import Classdesk.Proofs.Format.PoolRecall

/-!
# Attributes are found again

An attribute is found by its name, and its body is read from its bytes. Both can go wrong:
the name is an index into a pool that goes on growing, and the search stops at the first
attribute whose name cannot be looked up. The main result is

> `attribute_found_again`: an attribute that was made in a pool is found in every later
> state of it, behind attributes of other names, with the body it was made from.

It needs that the name stays at its index (`recalls_text`) and that the body is read back
whatever its size (`Code.roundTrips`, with tables and attributes inside).
-/

namespace Classdesk

open Codec

/-! ## Bodies are read back -/

private theorem InitialValue.roundTrips (v : InitialValue) : RoundTrips v := by
  intro bs rest hwrite
  exact Reading.map_eq_ok.mpr ⟨v.index, roundTrips_short v.index bs rest hwrite, rfl⟩

private theorem LineEntry.roundTrips (e : LineEntry) : RoundTrips e := by
  intro bs rest hwrite
  cases hwrite
  rw [List.append_assoc]
  exact Reading.seq_eq_ok.mpr ⟨_, _, Reading.map_eq_ok.mpr ⟨_, read_short e.start _, rfl⟩,
    e.line, read_short e.line rest, rfl⟩

private theorem LineTable.roundTrips (t : LineTable) : RoundTrips t := by
  intro bs rest hwrite
  have hentries : RoundTrips t.entries := roundTrips_table fun e _ => e.roundTrips
  exact Reading.map_eq_ok.mpr ⟨t.entries, hentries bs rest hwrite, rfl⟩

private theorem Handler.roundTrips (h : Handler) : RoundTrips h := by
  intro bs rest hwrite
  cases hwrite
  simp only [List.append_assoc]
  refine Reading.seq_eq_ok.mpr ⟨_, _, Reading.seq_eq_ok.mpr ⟨_, _, Reading.seq_eq_ok.mpr
    ⟨_, _, Reading.map_eq_ok.mpr ⟨_, read_short h.start _, rfl⟩, _, read_short h.stop _, rfl⟩,
    _, read_short h.target _, rfl⟩, h.caught, read_short h.caught rest, rfl⟩

/-- The code and the bodies of its attributes are short enough for the numbers in front of
them. -/
structure Code.Short (c : Code) : Prop where
  code : c.code.length < 2 ^ 32
  attributes : ∀ a ∈ c.attributes, a.Short

/-- Code is read back if neither it nor an attribute of it is too long for its size. -/
theorem Code.roundTrips {c : Code} (h : c.Short) : RoundTrips c := by
  intro bs rest hwrite
  obtain ⟨handlers, hhandlers, hwrite⟩ := Reading.except_bind_eq_ok.mp hwrite
  obtain ⟨attributes, hattributes, hwrite⟩ := Reading.except_bind_eq_ok.mp hwrite
  cases hwrite
  have hreadHandlers := roundTrips_table (fun h _ => Handler.roundTrips h) handlers
    (attributes ++ rest) hhandlers
  have hreadAttributes := roundTrips_attributes h.attributes attributes rest hattributes
  simp only [List.append_assoc]
  refine Reading.bind_eq_ok.mpr ⟨_, _, read_short c.maxStack _, ?_⟩
  refine Reading.bind_eq_ok.mpr ⟨_, _, read_short c.maxLocals _, ?_⟩
  refine Reading.bind_eq_ok.mpr ⟨_, _, readSizedBlock_append h.code _, ?_⟩
  refine Reading.bind_eq_ok.mpr ⟨_, _, hreadHandlers, ?_⟩
  exact Reading.bind_eq_ok.mpr ⟨_, _, hreadAttributes, rfl⟩

/-! ## Making and finding attributes -/

namespace Attribute

/-- The attribute has a name in the pool, and not this one. -/
def NamedOther (pool : Pool) (name : String) (a : Attribute) : Prop :=
  ∃ other, pool.text a.name = .ok other ∧ other ≠ name

variable {α : Type} [AttributeBody α] {pool : Pool}

/-- The search passes over attributes of other names. -/
theorem find_append {front : List Attribute}
    (h : ∀ b ∈ front, b.NamedOther pool (AttributeBody.name α)) (as : List Attribute) :
    find α pool (front ++ as) = find α pool as := by
  induction front with
  | nil => rfl
  | cons b front ih =>
    obtain ⟨other, hother, hne⟩ := h b (List.mem_cons_self ..)
    have hrest := ih fun b' hb' => h b' (List.mem_cons_of_mem _ hb')
    rw [List.cons_append, find, hother]
    show (if other = AttributeBody.name α then _ else find α pool (front ++ as)) = _
    rw [if_neg hne, hrest]

/-- The search stops at the first attribute of the name. -/
theorem find_cons {a : Attribute} {body : α} {rest : Bytes}
    (hname : pool.text a.name = .ok (AttributeBody.name α))
    (hbody : Codec.read a.info = .ok (body, rest)) (as : List Attribute) :
    find α pool (a :: as) = .ok (some body) := by
  rw [find, hname]
  show (if AttributeBody.name α = AttributeBody.name α then _ else _) = _
  rw [if_pos rfl, hbody]

end Attribute

namespace Pool

variable {α : Type} [AttributeBody α]

/-- An attribute is made of its name's index and its written body. -/
theorem internAttribute_eq_ok {body : α} {pool after : Pool} {a : Attribute} :
    internAttribute body pool = (.ok a, after)
      ↔ internText (AttributeBody.name α) pool = (.ok a.name, after)
        ∧ Codec.write body = .ok a.info := by
  unfold internAttribute
  rw [bind_eq_ok]
  cases hwrite : (Codec.write body : Except StreamFault Bytes) with
  | error fault =>
    constructor
    · intro h
      obtain ⟨_, _, -, h⟩ := h
      cases h
    · intro h
      cases h.2
  | ok info =>
    constructor
    · intro h
      obtain ⟨_, _, hname, h⟩ := h
      cases h
      exact ⟨hname, rfl⟩
    · intro h
      obtain ⟨hname, hinfo⟩ := h
      cases hinfo
      exact ⟨a.name, after, hname, rfl⟩

/-- Wherever it was made, an attribute with this body is found from then on, behind
attributes of other names. -/
def FoundAgain (body : α) : Prop :=
  ∀ (pool after later : Pool) (a : Attribute), Reachable pool →
    internAttribute body pool = (.ok a, after) → Grows after later →
    ∀ front back, (∀ b ∈ front, b.NamedOther later (AttributeBody.name α)) →
      Attribute.find α later (front ++ a :: back) = .ok (some body)

/-- An attribute is found by its name, which stays at its index, and a body that is read back is
what is found there. -/
theorem foundAgain_of_roundTrips {body : α} (hbody : RoundTrips body) : FoundAgain body := by
  intro pool after later a hpool hmake hlater front back hfront
  obtain ⟨hname, hinfo⟩ := internAttribute_eq_ok.mp hmake
  have hthere : later.TextAt a.name (AttributeBody.name α) :=
    ((recalls_text _).again hpool.wellFormed hname hlater.pushes.later.1).1
  have hread := hbody a.info [] hinfo
  rw [List.append_nil] at hread
  rw [Attribute.find_append hfront]
  exact Attribute.find_cons (text_eq_ok.mpr hthere) hread back

/-- **An attribute that was made is found again** with the same body, whatever was inserted
since. -/
theorem attribute_found_again :
    (∀ v : InitialValue, FoundAgain v) ∧ (∀ t : LineTable, FoundAgain t)
      ∧ ∀ c : Code, c.Short → FoundAgain c :=
  ⟨fun v => foundAgain_of_roundTrips v.roundTrips, fun t => foundAgain_of_roundTrips t.roundTrips,
    fun _ hc => foundAgain_of_roundTrips (Code.roundTrips hc)⟩

/-- Where there is room for the name, an attribute is made if its body can be written. -/
theorem internAttribute_fits (body : α) (pool : Pool) {info : Bytes}
    (hwrite : Codec.write body = .ok info) (hroom : pool.slots.size < 65535) :
    ∃ a after, internAttribute body pool = (.ok a, after)
      ∧ after.slots.size ≤ pool.slots.size + 1 := by
  cases hfound : pool.firstIndex[Constant.text (AttributeBody.name α)]? with
  | some i =>
    refine ⟨⟨i, info⟩, pool, internAttribute_eq_ok.mpr ⟨?_, hwrite⟩, Nat.le_succ _⟩
    simp only [internText, intern, hfound]
  | none =>
    obtain ⟨after, hpush, hslots, -⟩ := push_fits
      (show pool.slots.size + (Constant.text (AttributeBody.name α)).width ≤ 65535 from hroom)
    refine ⟨⟨UInt16.ofNat pool.slots.size, info⟩, after,
      internAttribute_eq_ok.mpr ⟨?_, hwrite⟩, ?_⟩
    · simp only [internText, intern, hfound, hpush]
    · rw [← Array.length_toList, hslots, List.length_append, Array.length_toList]
      exact Nat.le_refl _

/-- The source lines of a method. -/
def twoLines : LineTable := ⟨[⟨0, 7⟩, ⟨1, 8⟩]⟩

/-- A method that catches everything, with an attribute. -/
def catching (lines : Attribute) : Code := ⟨1, 1, [0x00, 0xB1], [⟨0, 1, 1, 0⟩], [lines]⟩

/-- Lines are stored first, then the code that holds them, and both are found in the end. -/
theorem catching_found_again :
    ∃ mid pool lines code, internAttribute twoLines empty = (.ok lines, mid)
      ∧ internAttribute (catching lines) mid = (.ok code, pool)
      ∧ Attribute.find LineTable pool [lines, code] = .ok (some twoLines)
      ∧ Attribute.find Code pool [lines, code] = .ok (some (catching lines)) := by
  obtain ⟨-, hlines, hcode⟩ := attribute_found_again
  obtain ⟨lines, mid, hfirst, hsize⟩ := internAttribute_fits twoLines empty rfl (by decide)
  obtain ⟨code, pool, hsecond, -⟩ := internAttribute_fits (catching lines) mid rfl
    (Nat.lt_of_le_of_lt hsize (by decide))
  have hstart : Reachable empty := ⟨empty, .inl rfl, .refl⟩
  have hgrows : Grows empty mid := by
    have h := Inserts.named twoLines empty
    rw [hfirst] at h
    exact .single h
  have hgrows' : Grows mid pool := by
    have h := Inserts.named (catching lines) mid
    rw [hsecond] at h
    exact .single h
  have hmid : Reachable mid := ⟨empty, .inl rfl, hgrows⟩
  have hshort : (catching lines).Short := by
    refine ⟨show 2 < 2 ^ 32 by decide, fun a ha => ?_⟩
    have hinfo : Except.ok lines.info = .ok [0, 2, 0, 0, 0, 7, 0, 1, 0, 8] :=
      (internAttribute_eq_ok.mp hfirst).2.symm
    rw [List.mem_singleton.mp ha, Attribute.Short, Except.ok.inj hinfo]
    decide
  have hother : lines.NamedOther pool "Code" := by
    have hname := (internAttribute_eq_ok.mp hfirst).1
    have hthere := ((recalls_text _).again hstart.wellFormed hname hgrows'.pushes.later.1).1
    exact ⟨_, text_eq_ok.mpr hthere, by decide⟩
  refine ⟨mid, pool, lines, code, hfirst, hsecond, ?_, ?_⟩
  · exact hlines twoLines empty mid pool lines hstart hfirst hgrows' [] [code]
      fun b hb => absurd hb List.not_mem_nil
  · refine hcode _ hshort mid pool pool code hmid hsecond .refl [lines] [] fun b hb => ?_
    rw [List.mem_singleton.mp hb]
    exact hother

end Pool

end Classdesk
