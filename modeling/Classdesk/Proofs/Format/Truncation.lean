import Classdesk.Proofs.Format.RoundTrip

/-!
# Class files that are cut short

A class file has no length in front, so a reader finds out that bytes are missing only
when it runs out of them. It has to notice this before anything else goes wrong: an end
inside a text must not look like a malformed text, and an end between two constants must
not look like a smaller pool. The main result is

> `parse_cut_short`: if a class takes all of `b`, then every proper front of `b` is
> refused as truncated, and anything behind `b` changes nothing.

`Streams` says this of one reader: it looks at the bytes it takes and at no others, and
it misses every one of them that is not there. Readers in a row stream if each of them
does, wherever the cut falls (`Streams.bind`). The checks between two reads only depend on
what was read, so they come out as they did on the whole file.
-/

namespace Classdesk

/-- The input was too short. -/
def StreamFault.CutShort (fault : StreamFault) : Prop := fault.isTruncation = true

/-- The input of a class file was too short. -/
def ClassFault.CutShort : ClassFault → Prop
  | stream fault => fault.CutShort
  | _ => False

namespace Reader

/-! ## Readers in general -/

section

variable {ε ε' α β : Type} {short : ε → Prop} {r : Reader ε α}

/-- The reader takes exactly the bytes `used` for `a`: it does not look behind them, and a
`short` fault is all that comes of a front of them. -/
structure Takes (short : ε → Prop) (r : Reader ε α) (used : Bytes) (a : α) : Prop where
  behind : ∀ rest, r (used ++ rest) = .ok (a, rest)
  cut : ∀ front missing, used = front ++ missing → missing ≠ [] →
    ∃ fault, r front = .error fault ∧ short fault

/-- Whatever the reader accepts, it takes byte by byte. -/
structure Streams (short : ε → Prop) (r : Reader ε α) : Prop where
  takes : ∀ {bs a rest}, r bs = .ok (a, rest) → ∃ used, bs = used ++ rest ∧ Takes short r used a

/-- A reader that takes nothing cannot be cut short. -/
theorem takes_nil {a : α} (h : ∀ rest, r rest = .ok (a, rest)) : Takes short r [] a where
  behind := h
  cut front missing hcut hmissing := by
    have hnil := List.append_eq_nil_iff.mp hcut.symm
    exact absurd hnil.2 hmissing

private theorem streams_pure (a : α) : Streams short (pure a : Reader ε α) := by
  refine ⟨fun {bs b rest} h => ?_⟩
  cases h
  exact ⟨[], rfl, takes_nil fun _ => rfl⟩

private theorem streams_lift (x : Except ε α) : Streams short (liftM x : Reader ε α) := by
  refine ⟨fun {bs a rest} h => ?_⟩
  obtain ⟨hx, hrest⟩ := Reading.lift_eq_ok.mp h
  refine ⟨[], by rw [hrest, List.nil_append], takes_nil fun rest' => ?_⟩
  exact Reading.lift_eq_ok.mpr ⟨hx, rfl⟩

private theorem streams_throw (e : ε) : Streams short (throw e : Reader ε α) :=
  ⟨fun h => absurd h Reading.throw_eq_ok⟩

/-- Behind a part that is complete, it depends on the second reader alone. -/
theorem Takes.bind {f : α → Reader ε β} {first second : Bytes} {a : α} {b : β}
    (hr : Takes short r first a) (hf : Takes short (f a) second b) :
    Takes short (r >>= f) (first ++ second) b where
  behind rest := by
    rw [List.append_assoc]
    exact Reading.bind_eq_ok.mpr ⟨a, _, hr.behind _, hf.behind rest⟩
  cut front missing hcut hmissing := by
    -- Where the cut is in the first part, the second reader is never asked.
    have hfirst : ∀ lost, first = front ++ lost → lost ≠ [] →
        ∃ fault, (r >>= f) front = .error fault ∧ short fault := by
      intro lost hlost hne
      obtain ⟨fault, hfault, hshort⟩ := hr.cut front lost hlost hne
      refine ⟨fault, ?_, hshort⟩
      rw [Reading.bind_run, hfault]
      rfl
    have hsecond : ∀ more, front = first ++ more → second = more ++ missing →
        ∃ fault, (r >>= f) front = .error fault ∧ short fault := by
      intro more hmore hrest
      obtain ⟨fault, hfault, hshort⟩ := hf.cut more missing hrest hmissing
      refine ⟨fault, ?_, hshort⟩
      rw [hmore, Reading.bind_run, hr.behind]
      exact hfault
    rcases List.append_eq_append_iff.mp hcut with ⟨more, hmore, hrest⟩ | ⟨lost, hlost, hrest⟩
    · exact hsecond more hmore hrest
    · by_cases hne : lost = []
      · -- The cut falls between the two parts.
        rw [hne, List.append_nil] at hlost
        rw [hne, List.nil_append] at hrest
        exact hsecond [] (by rw [hlost, List.append_nil]) hrest.symm
      · exact hfirst lost hlost hne

/-- Two readers in a row: the input may end in either of them. -/
theorem Streams.bind {f : α → Reader ε β} (hr : Streams short r)
    (hf : ∀ a, Streams short (f a)) : Streams short (r >>= f) := by
  refine ⟨fun {bs b rest} h => ?_⟩
  obtain ⟨a, mid, ha, hb⟩ := Reading.bind_eq_ok.mp h
  obtain ⟨first, hbs, hfirst⟩ := hr.takes ha
  obtain ⟨second, hmid, hsecond⟩ := (hf a).takes hb
  exact ⟨first ++ second, by rw [hbs, hmid, List.append_assoc], hfirst.bind hsecond⟩

private theorem Streams.map (hr : Streams short r) (f : α → β) : Streams short (f <$> r) :=
  hr.bind fun a => streams_pure (f a)

private theorem Streams.seq {g : Reader ε (α → β)} (hg : Streams short g) (hr : Streams short r) :
    Streams short (g <*> r) :=
  hg.bind fun f => hr.map f

/-- A check on what was read so far takes nothing. -/
theorem Streams.refuse {p : Prop} [Decidable p] (hr : Streams short r) (e : ε)
    (k : β → Reader ε α) : Streams short (if p then throw e >>= k else r) := by
  refine ⟨fun {bs a rest} h => ?_⟩
  obtain ⟨hp, h⟩ := Reading.refuse_eq_ok.mp h
  rw [if_neg hp]
  exact hr.takes h

/-- Faults may be reported in another form if the short ones still count as such. -/
theorem Streams.mapFault {short' : ε' → Prop} (hr : Streams short r) {f : ε → ε'}
    (hf : ∀ e, short e → short' (f e)) : Streams short' (r.mapFault f) := by
  refine ⟨fun {bs a rest} h => ?_⟩
  obtain ⟨used, hbs, hused⟩ := hr.takes (mapFault_eq_ok.mp h)
  refine ⟨used, hbs, fun rest' => mapFault_eq_ok.mpr (hused.behind rest'), ?_⟩
  intro front missing hcut hmissing
  obtain ⟨fault, hfault, hshort⟩ := hused.cut front missing hcut hmissing
  refine ⟨f fault, ?_, hf fault hshort⟩
  unfold Reader.mapFault
  rw [hfault]
  rfl

/-- Numbers and blocks take as many bytes as they have, and count them first. -/
theorem streams_count (n : Nat) (g : Bytes → α) (fault : Nat → ε)
    (hfault : ∀ k, short (fault k)) :
    Streams short (fun bs => if (bs.take n).length = n then .ok (g (bs.take n), bs.drop n)
      else .error (fault (bs.take n).length) : Reader ε α) := by
  refine ⟨fun {bs a rest} h => ?_⟩
  by_cases hlen : (bs.take n).length = n
  · simp only [if_pos hlen, Except.ok.injEq, Prod.mk.injEq] at h
    obtain ⟨rfl, rfl⟩ := h
    refine ⟨bs.take n, (List.take_append_drop n bs).symm, ?_, ?_⟩
    · intro rest'
      have htake : (bs.take n ++ rest').take n = bs.take n := List.take_left' hlen
      have hdrop : (bs.take n ++ rest').drop n = rest' := List.drop_left' hlen
      show (if _ then _ else _) = _
      rw [htake, hdrop, if_pos hlen]
    · intro front missing hcut hmissing
      have hpos := List.length_pos_iff.mpr hmissing
      have hsum : front.length + missing.length = n := by
        rw [← List.length_append, ← hcut, hlen]
      have hfew : ¬ (front.take n).length = n := by
        rw [List.length_take]
        omega
      exact ⟨_, if_neg hfew, hfault _⟩
  · simp only [if_neg hlen, reduceCtorEq] at h

end

end Reader

open Reader

/-! ## Stored values -/

namespace Codec

/-- Reading an `α` takes its bytes one by one. -/
abbrev Streaming (α : Type) [Codec α] : Prop :=
  Streams StreamFault.CutShort (read : Reader StreamFault α)

/-- A number ends short exactly if there are too few bytes. -/
private theorem streams_readWord (w : Nat) :
    Streams StreamFault.CutShort (readWord w) :=
  streams_count w Bytes.toNat (fun _ => StreamFault.endOfInput) fun _ => rfl

private theorem streams_readBlock (n : Nat) :
    Streams StreamFault.CutShort (readBlock n) :=
  streams_count n id (StreamFault.shortBlock n) fun _ => rfl

private theorem streaming_ofWord {α : Type} (w : Nat) (ofNat : Nat → α) (toNat : α → Nat) :
    @Streaming α (ofWord w ofNat toNat) :=
  (streams_readWord w).map ofNat

private theorem streaming_byte : Streaming UInt8 := streaming_ofWord ..

private theorem streaming_short : Streaming UInt16 := streaming_ofWord ..

private theorem streaming_word : Streaming UInt32 := streaming_ofWord ..

private theorem streams_readSizedBlock :
    Streams StreamFault.CutShort readSizedBlock :=
  streaming_word.bind fun n => streams_readBlock n.toNat

/-- Entries end short where one of them does. -/
private theorem streams_readEntries {α : Type} [Codec α] (h : Streaming α) (n : Nat) :
    Streams StreamFault.CutShort (readEntries n : Reader _ (List α)) := by
  induction n with
  | zero => exact streams_pure []
  | succ n ih => exact h.bind fun a => ih.bind fun as => streams_pure (a :: as)

private theorem streaming_table {α : Type} [Codec α] (h : Streaming α) : Streaming (List α) :=
  streaming_short.bind fun n => streams_readEntries h n.toNat

end Codec

open Codec

private theorem Attribute.streaming : Streaming Attribute :=
  streaming_short.bind fun name => streams_readSizedBlock.bind fun info =>
    streams_pure (Attribute.mk name info)

private theorem Version.streaming : Streaming Version :=
  (streaming_short.map Version.mk).seq streaming_short

private theorem AccessFlags.streaming (named : UInt16) : Streaming (AccessFlags named) :=
  streaming_short.map (truncate named)

/-- Members are read as streams, attributes included. -/
theorem Member.streaming (named : UInt16) : Streaming (Member named) :=
  ((((AccessFlags.streaming named).map Member.mk).seq streaming_short).seq streaming_short).seq
    (streaming_table Attribute.streaming)

/-! ## Constants -/

private theorem streams_stored {α : Type} [Codec α] (h : Streaming α) :
    Streams ClassFault.CutShort (stored : Reader ClassFault α) :=
  h.mapFault fun _ hfault => hfault

private theorem streams_index : Streams ClassFault.CutShort (stored : Reader ClassFault UInt16) :=
  streams_stored streaming_short

namespace Constant

/-- The bytes of a text are all there before they are looked at. -/
theorem streams_readText : Streams ClassFault.CutShort readText := by
  refine streams_index.bind fun size => ?_
  have hblock : Streams ClassFault.CutShort
      ((readBlock size.toNat).mapFault ClassFault.stream) :=
    (streams_readBlock size.toNat).mapFault fun _ hfault => hfault
  exact hblock.bind fun bytes => (streams_lift (textOf bytes)).bind fun value =>
    streams_pure (text value)

private theorem streams_readHandle : Streams ClassFault.CutShort readHandle := by
  refine (streams_stored streaming_byte).bind fun code => ?_
  cases HandleKind.ofCode? code with
  | some kind => exact streams_index.map (methodHandle kind)
  | none => exact streams_throw _

private theorem streams_pair (f : UInt16 → UInt16 → Constant) :
    Streams ClassFault.CutShort (f <$> stored <*> stored) :=
  (streams_index.map f).seq streams_index

theorem streams_read : Streams ClassFault.CutShort read := by
  refine (streams_stored streaming_byte).bind fun tag => ?_
  split
  · exact streams_readText
  · exact (streams_stored (streaming_ofWord ..)).map integer
  · exact (streams_stored streaming_word).map float
  · exact (streams_stored (streaming_ofWord ..)).map long
  · exact (streams_stored (streaming_ofWord ..)).map double
  · exact streams_index.map classRef
  · exact streams_index.map string
  · exact streams_pair fieldRef
  · exact streams_pair (methodRef · · false)
  · exact streams_pair (methodRef · · true)
  · exact streams_pair nameAndType
  · exact streams_readHandle
  · exact streams_index.map methodType
  · exact streams_pair dynamic
  · exact streams_pair invokeDynamic
  · exact streams_index.map moduleRef
  · exact streams_index.map packageRef
  · exact streams_throw _

end Constant

/-! ## Pools and classes -/

namespace Pool

/-- However many slots are taken already, the constants that are left are missed. -/
theorem streams_readConstants (count fuel : Nat) (pool : Pool) :
    Streams ClassFault.CutShort (readConstants count fuel pool) := by
  induction fuel generalizing pool with
  | zero => exact streams_pure pool
  | succ fuel ih =>
    unfold readConstants
    by_cases hmore : pool.slots.size < count
    · rw [if_pos hmore]
      refine Constant.streams_read.bind fun c => ?_
      cases push c pool with
      | mk result next =>
        cases result with
        | ok i => exact ih next
        | error fault => exact streams_throw fault
    · rw [if_neg hmore]
      exact streams_pure pool

theorem streams_read : Streams ClassFault.CutShort Pool.read := by
  refine streams_index.bind fun count => ?_
  refine (streams_readConstants count.toNat count.toNat empty).bind fun pool => ?_
  by_cases hsize : pool.slots.size = count.toNat
  · rw [if_pos hsize]
    exact streams_pure pool
  · rw [if_neg hsize]
    exact streams_throw _

end Pool

namespace ClassFile

theorem streams_read : Streams ClassFault.CutShort read := by
  refine (streams_stored streaming_word).bind fun found => Streams.refuse ?_ _ _
  refine (streams_stored Version.streaming).bind fun version => ?_
  refine Pool.streams_read.bind fun pool => ?_
  refine (streams_stored (AccessFlags.streaming _)).bind fun flags => ?_
  refine streams_index.bind fun thisClass => streams_index.bind fun superClass => ?_
  refine (streams_stored (streaming_table streaming_short)).bind fun interfaces => ?_
  refine (streams_stored (streaming_table (Member.streaming _))).bind fun fields => ?_
  refine (streams_stored (streaming_table (Member.streaming _))).bind fun methods => ?_
  exact (streams_stored (streaming_table Attribute.streaming)).bind fun _ => streams_pure _

/-- **A class file that is cut short is refused as truncated**, wherever it is cut, and what
stands behind a class does not change it. -/
theorem parse_cut_short {b : Bytes} {c : ClassFile} (h : read b = .ok (c, [])) :
    (∀ p, p <+: b → p ≠ b →
        ∃ fault, parse p = .error (.stream fault) ∧ fault.isTruncation = true)
      ∧ ∀ t, parse (b ++ t) = .ok c := by
  obtain ⟨used, hused, htakes⟩ := streams_read.takes h
  rw [List.append_nil] at hused
  rw [← hused] at htakes
  constructor
  · intro p hp hne
    obtain ⟨missing, hmissing⟩ := hp
    have hcut : missing ≠ [] := by
      intro hnil
      rw [hnil, List.append_nil] at hmissing
      exact hne hmissing
    obtain ⟨fault, hread, hshort⟩ := htakes.cut p missing hmissing.symm hcut
    cases fault with
    | stream fault =>
      refine ⟨fault, ?_, hshort⟩
      unfold parse
      rw [hread]
      rfl
    | _ => exact hshort.elim
  · intro t
    unfold parse
    rw [htakes.behind t]
    rfl

/-- A stored class with a field that has an attribute. -/
def fieldClass : Bytes :=
  [0xCA, 0xFE, 0xBA, 0xBE, 0, 0, 0, 52, 0, 4, 1, 0, 1, 65, 7, 0, 1, 1, 0, 1, 102, 0, 33, 0, 2,
    0, 0, 0, 1, 0, 2, 0, 1, 0, 2, 0, 3, 0, 1, 0, 1, 0, 1, 0, 0, 0, 2, 0, 7, 0, 0, 0, 0]

/-- A class with one field, cut at every place, and with bytes behind it. -/
theorem fieldClass_cut_short :
    ∃ c, read fieldClass = .ok (c, [])
      ∧ (∀ n < fieldClass.length, ∃ fault,
          parse (fieldClass.take n) = .error (.stream fault) ∧ fault.isTruncation = true)
      ∧ parse (fieldClass ++ [0, 1]) = .ok c := by
  obtain ⟨c, hread⟩ : ∃ c, read fieldClass = .ok (c, []) := ⟨_, rfl⟩
  obtain ⟨hcut, hbehind⟩ := parse_cut_short hread
  refine ⟨c, hread, ?_, hbehind [0, 1]⟩
  intro n hn
  refine hcut _ (List.take_prefix n fieldClass) ?_
  intro heq
  have hlength := congrArg List.length heq
  rw [List.length_take] at hlength
  omega

end ClassFile

end Classdesk
