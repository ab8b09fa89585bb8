import Classdesk.Proofs.Bytecode.Operands
import Classdesk.Proofs.Format.Codecs
import Classdesk.Proofs.Format.PoolLookup

/-!
# How instructions are stored

`Site.Encodes` relates an instruction to the byte strings it can be stored as at its
offset: the opcode, then the operands, most significant byte first. The relation does
not look at the decoder. It has a table of opcodes of its own, distances are numbers
in two's complement, and constants are found in the slots of the pool. The main result
is

> `instruction_eq_ok`: reading an instruction succeeds exactly if the code goes on with
> an encoding of it, and stops behind this encoding.

Each reader of operands has one lemma of the same form, from numbers up to the rows of
a switch.
-/

namespace Classdesk

/-! ## Opcodes, numbers and constants -/

/-- The opcodes with each kind of operands. Without operands are also the bytes that no
instruction starts with. -/
def Opcode.Takes (op : UInt8) : Opcode.Operands → Prop
  | .none =>
    op ≤ 0x0F ∨ (0x1A ≤ op ∧ op ≤ 0x35) ∨ (0x3B ≤ op ∧ op ≤ 0x83) ∨ (0x85 ≤ op ∧ op ≤ 0x98)
      ∨ (0xAC ≤ op ∧ op ≤ 0xB1) ∨ op = 0xBE ∨ op = 0xBF ∨ op = 0xC2 ∨ op = 0xC3 ∨ 0xCA ≤ op
  | .pushByte => op = 0x10
  | .pushShort => op = 0x11
  | .constantNarrow => op = 0x12
  | .constantWide => op = 0x13 ∨ op = 0x14
  | .localIndex => (0x15 ≤ op ∧ op ≤ 0x19) ∨ (0x36 ≤ op ∧ op ≤ 0x3A) ∨ op = 0xA9
  | .increment => op = 0x84
  | .branch => (0x99 ≤ op ∧ op ≤ 0xA8) ∨ op = 0xC6 ∨ op = 0xC7
  | .branchWide => op = 0xC8 ∨ op = 0xC9
  | .tableSwitch => op = 0xAA
  | .lookupSwitch => op = 0xAB
  | .field => 0xB2 ≤ op ∧ op ≤ 0xB5
  | .method => 0xB6 ≤ op ∧ op ≤ 0xB8
  | .interfaceMethod => op = 0xB9
  | .dynamicCall => op = 0xBA
  | .type => op = 0xBB ∨ op = 0xBD ∨ op = 0xC0 ∨ op = 0xC1
  | .newArray => op = 0xBC
  | .multiArray => op = 0xC5
  | .wide => op = 0xC4

instance (op : UInt8) (kind : Opcode.Operands) : Decidable (Opcode.Takes op kind) := by
  cases kind <;> unfold Opcode.Takes <;> infer_instance

/-- Each opcode takes the operands that it is read with. -/
private theorem Opcode.takes_operands (op : UInt8) : Opcode.Takes op (Opcode.operands op) := by
  revert op
  refine Bytecode.Site.forall_byte ?_
  decide +kernel

private theorem Opcode.operands_of_takes (op : UInt8) (kind : Opcode.Operands)
    (h : Opcode.Takes op kind) : Opcode.operands op = kind := by
  revert op
  cases kind with
  | none | localIndex | branch | field | method =>
    refine Bytecode.Site.forall_byte ?_
    decide +kernel
  | constantWide | branchWide =>
    rintro op (rfl | rfl) <;> rfl
  | type =>
    rintro op (rfl | rfl | rfl | rfl) <;> rfl
  | _ =>
    rintro op rfl
    rfl

/-- The table agrees with the decoder on every byte. -/
theorem Opcode.takes_iff (op : UInt8) (kind : Opcode.Operands) :
    Opcode.Takes op kind ↔ Opcode.operands op = kind :=
  ⟨Opcode.operands_of_takes op kind, fun h => h ▸ Opcode.takes_operands op⟩

private theorem Opcode.isLocal_iff {op : UInt8} :
    Opcode.isLocal op = true ↔ Opcode.Takes op .localIndex := by
  simp [Opcode.isLocal, Opcode.Takes, or_assoc]

/-- The number that an array creation stores for its elements. -/
def BaseType.arrayCode : BaseType → UInt8
  | .boolean => 4
  | .char => 5
  | .float => 6
  | .double => 7
  | .byte => 8
  | .short => 9
  | .int => 10
  | .long => 11

private theorem BaseType.ofArrayCode?_eq_some (code : UInt8) (element : BaseType) :
    BaseType.ofArrayCode? code = some element ↔ code = element.arrayCode := by
  revert code
  refine Bytecode.Site.forall_byte ?_
  cases element <;> decide +kernel

namespace Bytecode

/-- An unsigned 16-bit operand. -/
def shortBytes (n : UInt16) : Bytes := Bytes.ofNat 2 n.toNat

/-- A signed 16-bit operand. -/
def signedShortBytes (n : Int16) : Bytes := Bytes.ofNat 2 n.toUInt16.toNat

/-- A signed 32-bit operand. -/
def signedIntBytes (n : Int32) : Bytes := Bytes.ofNat 4 n.toUInt32.toNat

@[simp] theorem length_shortBytes (n : UInt16) : (shortBytes n).length = 2 :=
  Bytes.length_ofNat 2 _

@[simp] theorem length_signedShortBytes (n : Int16) : (signedShortBytes n).length = 2 :=
  Bytes.length_ofNat 2 _

@[simp] theorem length_signedIntBytes (n : Int32) : (signedIntBytes n).length = 4 :=
  Bytes.length_ofNat 4 _

/-- A constant that can be pushed stands at an index. -/
inductive LoadableAt (pool : Pool) (i : ConstIndex) : LoadableConstant → Prop
  | integer {value : Int32} (here : pool.At i (.integer value)) : LoadableAt pool i (.integer value)
  | float {bits : UInt32} (here : pool.At i (.float bits)) : LoadableAt pool i (.float bits)
  | long {value : Int64} (here : pool.At i (.long value)) : LoadableAt pool i (.long value)
  | double {bits : UInt64} (here : pool.At i (.double bits)) : LoadableAt pool i (.double bits)
  | string {text : ConstIndex} {value : String} (here : pool.At i (.string text))
      (htext : pool.TextAt text value) : LoadableAt pool i (.string value)
  | classRef {name : String} (here : pool.ClassAt i name) : LoadableAt pool i (.classRef name)
  | methodType {text : ConstIndex} {descriptor : String} (here : pool.At i (.methodType text))
      (htext : pool.TextAt text descriptor) : LoadableAt pool i (.methodType descriptor)
  | methodHandle {kind : HandleKind} {index : ConstIndex} {m : MemberRef} {isInterface : Bool}
      (here : pool.At i (.methodHandle kind index)) (hmember : pool.MemberAt index m isInterface) :
      LoadableAt pool i (.methodHandle kind m)
  | dynamic {bootstrap : UInt16} {shape : ConstIndex} {name descriptor : String}
      (here : pool.At i (.dynamic bootstrap shape)) (hshape : pool.ShapeAt shape name descriptor) :
      LoadableAt pool i (.dynamic name descriptor)

/-- A call site stands at an index. -/
def CallSiteAt (pool : Pool) (i : ConstIndex) (bootstrap : UInt16) (name descriptor : String) :
    Prop :=
  ∃ shape, pool.At i (.invokeDynamic bootstrap shape) ∧ pool.ShapeAt shape name descriptor

namespace Site

/-- The distance leads from the instruction to a place inside the code. -/
def Reaches (site : Site) (distance : Int) (target : Nat) : Prop :=
  (target : Int) = site.start + distance ∧ target < site.codeLength

/-- The rows of a lookup switch that lead to some pairs of a value and a place. -/
def RowsReach (site : Site) : List (Int32 × Int32) → List (Int32 × Nat) → Prop :=
  List.Forall₂ fun row pair => row.1 = pair.1 ∧ site.Reaches row.2.toInt pair.2

/-- One row of a lookup switch. -/
def rowBytes (row : Int32 × Int32) : Bytes := signedIntBytes row.1 ++ signedIntBytes row.2

/-- The byte strings that an instruction can be stored as. The operands of a switch start
at a multiple of four from the start of the code, with anything in front of them. -/
inductive Encodes (site : Site) : Instruction Nat → Bytes → Prop
  | simple {op : UInt8} (hop : Opcode.Takes op .none) : Encodes site (.simple op) [op]
  | pushByte (value : Int8) :
      Encodes site (.push 0x10 value.toInt32) [0x10, value.toUInt8]
  | pushShort (value : Int16) :
      Encodes site (.push 0x11 value.toInt32) (0x11 :: signedShortBytes value)
  | constantNarrow {index : UInt8} {value : LoadableConstant}
      (hvalue : LoadableAt site.pool index.toUInt16 value) :
      Encodes site (.constant 0x12 value) [0x12, index]
  | constantWide {op : UInt8} {index : ConstIndex} {value : LoadableConstant}
      (hop : Opcode.Takes op .constantWide) (hvalue : LoadableAt site.pool index value) :
      Encodes site (.constant op value) (op :: shortBytes index)
  | localIndex {op : UInt8} (hop : Opcode.Takes op .localIndex) (index : UInt8) :
      Encodes site (.localAccess op index.toUInt16) [op, index]
  | increment (index : UInt8) (delta : Int8) :
      Encodes site (.increment index.toUInt16 delta.toInt16) [0x84, index, delta.toUInt8]
  | branch {op : UInt8} {distance : Int16} {target : Nat} (hop : Opcode.Takes op .branch)
      (htarget : site.Reaches distance.toInt target) :
      Encodes site (.jump op target) (op :: signedShortBytes distance)
  | branchWide {op : UInt8} {distance : Int32} {target : Nat} (hop : Opcode.Takes op .branchWide)
      (htarget : site.Reaches distance.toInt target) :
      Encodes site (.jump op target) (op :: signedIntBytes distance)
  | tableSwitch {padding : Bytes} {distance low high : Int32} {distances : List Int32}
      {default : Nat} {targets : List Nat} (hpadding : padding.length < 4)
      (haligned : (site.start + 1 + padding.length) % 4 = 0)
      (hdefault : site.Reaches distance.toInt default) (hbounds : low.toInt ≤ high.toInt)
      (hcount : low.toInt + distances.length = high.toInt + 1)
      (htargets : List.Forall₂ (fun d t => site.Reaches d.toInt t) distances targets) :
      Encodes site (.tableSwitch default low targets)
        (0xAA :: (padding ++ (signedIntBytes distance ++ (signedIntBytes low
          ++ (signedIntBytes high ++ distances.flatMap signedIntBytes)))))
  | lookupSwitch {padding : Bytes} {distance count : Int32} {rows : List (Int32 × Int32)}
      {default : Nat} {pairs : List (Int32 × Nat)} (hpadding : padding.length < 4)
      (haligned : (site.start + 1 + padding.length) % 4 = 0)
      (hdefault : site.Reaches distance.toInt default) (hcount : count.toInt = rows.length)
      (hpairs : site.RowsReach rows pairs) :
      Encodes site (.lookupSwitch default pairs)
        (0xAB :: (padding ++ (signedIntBytes distance ++ (signedIntBytes count
          ++ rows.flatMap rowBytes))))
  | field {op : UInt8} {index : ConstIndex} {m : MemberRef} {isInterface : Bool}
      (hop : Opcode.Takes op .field) (hmember : site.pool.MemberAt index m isInterface) :
      Encodes site (.field op m) (op :: shortBytes index)
  | method {op : UInt8} {index : ConstIndex} {m : MemberRef} {isInterface : Bool}
      (hop : Opcode.Takes op .method) (hmember : site.pool.MemberAt index m isInterface) :
      Encodes site (.method op m isInterface) (op :: shortBytes index)
  | interfaceMethod {index : ConstIndex} {m : MemberRef} {isInterface : Bool}
      (hmember : site.pool.MemberAt index m isInterface) (ignored : UInt16) :
      Encodes site (.method 0xB9 m isInterface) (0xB9 :: (shortBytes index ++ shortBytes ignored))
  | dynamicCall {index : ConstIndex} {bootstrap : UInt16} {name descriptor : String}
      (hcall : CallSiteAt site.pool index bootstrap name descriptor) (ignored : UInt16) :
      Encodes site (.invokeDynamic bootstrap name descriptor)
        (0xBA :: (shortBytes index ++ shortBytes ignored))
  | type {op : UInt8} {index : ConstIndex} {name : String} (hop : Opcode.Takes op .type)
      (hclass : site.pool.ClassAt index name) :
      Encodes site (.type op name) (op :: shortBytes index)
  | newArray (element : BaseType) : Encodes site (.newArray element) [0xBC, element.arrayCode]
  | multiArray {index : ConstIndex} {name : String} (hclass : site.pool.ClassAt index name)
      (dimensions : UInt8) :
      Encodes site (.multiArray name dimensions) (0xC5 :: (shortBytes index ++ [dimensions]))
  | wideLocal {op : UInt8} (hop : Opcode.Takes op .localIndex) (index : UInt16) :
      Encodes site (.localAccess op index) (0xC4 :: op :: shortBytes index)
  | wideIncrement (index : UInt16) (delta : Int16) :
      Encodes site (.increment index delta)
        (0xC4 :: 0x84 :: (shortBytes index ++ signedShortBytes delta))

variable {site : Site} {p : Nat} {bs : Bytes} {next : Cursor}

/-! ## Numbers -/

/-- A word is read off the bytes that spell it, and the cursor moves behind them. -/
theorem word_eq_ok {w n : Nat} :
    site.word w ⟨p, bs⟩ = .ok (n, next)
      ↔ n < 256 ^ w ∧ ∃ rest, bs = Bytes.ofNat w n ++ rest ∧ next = ⟨p + w, rest⟩ := by
  have hread : site.word w ⟨p, bs⟩ = .ok (n, next)
      ↔ ∃ rest, Codec.readWord w bs = .ok (n, rest) ∧ next = ⟨p + w, rest⟩ := by
    unfold word Codec.readWord
    by_cases hlen : (bs.take w).length = w
    · simp only [hlen, if_true, Except.ok.injEq, Prod.mk.injEq, and_assoc, exists_and_left]
      rw [exists_eq_left', eq_comm (a := next)]
    · simp only [hlen, if_false, reduceCtorEq, false_and, exists_const]
  simp only [hread, Codec.readWord_eq_ok, and_assoc, exists_and_left]

/-- Values that are numbered by the `w`-byte numbers are read off their numbers. -/
theorem number_eq_ok {α : Type} {a : α} (w : Nat) (ofNat : Nat → α) (toNat : α → Nat)
    (hlt : ∀ a, toNat a < 256 ^ w) (hleft : ∀ a, ofNat (toNat a) = a)
    (hright : ∀ n < 256 ^ w, toNat (ofNat n) = n) :
    (ofNat <$> site.word w) ⟨p, bs⟩ = .ok (a, next)
      ↔ ∃ rest, bs = Bytes.ofNat w (toNat a) ++ rest ∧ next = ⟨p + w, rest⟩ := by
  rw [Reading.map_eq_ok]
  simp only [word_eq_ok]
  constructor
  · rintro ⟨n, ⟨hn, rest, hbs, hnext⟩, rfl⟩
    exact ⟨rest, by rw [hright n hn, hbs], hnext⟩
  · rintro ⟨rest, hbs, hnext⟩
    exact ⟨toNat a, ⟨hlt a, rest, hbs, hnext⟩, hleft a⟩

/-- One byte stores itself. -/
theorem ofNat_one_toNat (b : UInt8) : Bytes.ofNat 1 b.toNat = [b] := by
  show [UInt8.ofNat b.toNat] = [b]
  rw [UInt8.ofNat_toNat]

private theorem byte_eq_ok {b : UInt8} :
    site.byte ⟨p, bs⟩ = .ok (b, next) ↔ ∃ rest, bs = b :: rest ∧ next = ⟨p + 1, rest⟩ := by
  unfold byte
  rw [number_eq_ok 1 UInt8.ofNat UInt8.toNat UInt8.toNat_lt (fun _ => UInt8.ofNat_toNat)
    (fun n hn => UInt8.toNat_ofNat_of_lt' hn), ofNat_one_toNat]
  rfl

private theorem signedByte_eq_ok {x : Int8} :
    (Int8.ofNat <$> site.word 1) ⟨p, bs⟩ = .ok (x, next)
      ↔ ∃ rest, bs = x.toUInt8 :: rest ∧ next = ⟨p + 1, rest⟩ := by
  rw [number_eq_ok 1 Int8.ofNat (fun x => x.toUInt8.toNat) (fun x => x.toUInt8.toNat_lt) ?_ ?_,
    ofNat_one_toNat]
  · rfl
  · intro x
    simp [← Int8.toBitVec_inj, Int8.toBitVec_ofNat']
  · intro n hn
    rw [Int8.toUInt8_ofNat', UInt8.toNat_ofNat_of_lt' hn]

private theorem short_eq_ok {n : UInt16} :
    site.short ⟨p, bs⟩ = .ok (n, next)
      ↔ ∃ rest, bs = shortBytes n ++ rest ∧ next = ⟨p + 2, rest⟩ := by
  unfold short
  exact number_eq_ok 2 UInt16.ofNat UInt16.toNat UInt16.toNat_lt (fun _ => UInt16.ofNat_toNat)
    (fun n hn => UInt16.toNat_ofNat_of_lt' hn)

private theorem signedShort_eq_ok {x : Int16} :
    (Int16.ofNat <$> site.word 2) ⟨p, bs⟩ = .ok (x, next)
      ↔ ∃ rest, bs = signedShortBytes x ++ rest ∧ next = ⟨p + 2, rest⟩ := by
  refine number_eq_ok 2 Int16.ofNat (fun x => x.toUInt16.toNat)
    (fun x => x.toUInt16.toNat_lt) ?_ ?_
  · intro x
    simp [← Int16.toBitVec_inj, Int16.toBitVec_ofNat']
  · intro n hn
    rw [Int16.toUInt16_ofNat', UInt16.toNat_ofNat_of_lt' hn]

private theorem signedInt_eq_ok {x : Int32} :
    site.signedInt ⟨p, bs⟩ = .ok (x, next)
      ↔ ∃ rest, bs = signedIntBytes x ++ rest ∧ next = ⟨p + 4, rest⟩ := by
  unfold signedInt
  refine number_eq_ok 4 Int32.ofNat (fun x => x.toUInt32.toNat)
    (fun x => x.toUInt32.toNat_lt) ?_ ?_
  · intro x
    simp [← Int32.toBitVec_inj, Int32.toBitVec_ofNat']
  · intro n hn
    rw [Int32.toUInt32_ofNat', UInt32.toNat_ofNat_of_lt' hn]

/-- Between a position and the next multiple of four there are three bytes at most. -/
theorem align_eq_ok {u : Unit} :
    site.align ⟨p, bs⟩ = .ok (u, next)
      ↔ ∃ padding rest, padding.length < 4 ∧ (p + padding.length) % 4 = 0
        ∧ bs = padding ++ rest ∧ next = ⟨p + padding.length, rest⟩ := by
  unfold align
  constructor
  · intro h
    cases hw : site.word ((4 - p % 4) % 4) ⟨p, bs⟩ with
    | error e =>
      rw [hw] at h
      cases h
    | ok r =>
      rw [hw] at h
      cases h
      obtain ⟨-, rest, hbs, hnext⟩ := word_eq_ok.mp hw
      refine ⟨_, rest, ?_, ?_, hbs, ?_⟩
      · rw [Bytes.length_ofNat]
        omega
      · rw [Bytes.length_ofNat]
        omega
      · rw [Bytes.length_ofNat, hnext]
  · -- Padding is read as one number and dropped, so its bytes do not matter.
    rintro ⟨padding, rest, hshort, haligned, rfl, rfl⟩
    have hlen : (4 - p % 4) % 4 = padding.length := by omega
    have hw : site.word padding.length ⟨p, padding ++ rest⟩
        = .ok (Bytes.toNat padding, ⟨p + padding.length, rest⟩) :=
      word_eq_ok.mpr ⟨Bytes.toNat_lt padding, rest, by rw [Bytes.ofNat_toNat], rfl⟩
    dsimp only
    rw [hlen, hw]
    rfl

/-! ## Distances -/

/-- A place is found exactly if the distance leads to an offset inside the code. -/
theorem place_eq_ok {distance : Int} {target : Nat} :
    site.place distance = .ok target ↔ site.Reaches distance target := by
  unfold place Reaches
  dsimp only
  split
  next hin =>
    rw [Except.ok.injEq]
    omega
  next hout =>
    simp only [reduceCtorEq, false_iff]
    omega

/-- A branch is two bytes of distance that lead inside the code. -/
theorem branch_eq_ok {target : Nat} :
    site.branch ⟨p, bs⟩ = .ok (target, next)
      ↔ ∃ distance : Int16, site.Reaches distance.toInt target
        ∧ ∃ rest, bs = signedShortBytes distance ++ rest ∧ next = ⟨p + 2, rest⟩ := by
  simp only [branch, Reading.bind_eq_ok, signedShort_eq_ok, Reading.lift_eq_ok, place_eq_ok]
  constructor
  · rintro ⟨distance, _, ⟨rest, rfl, rfl⟩, htarget, rfl⟩
    exact ⟨distance, htarget, rest, rfl, rfl⟩
  · rintro ⟨distance, htarget, rest, rfl, rfl⟩
    exact ⟨distance, _, ⟨rest, rfl, rfl⟩, htarget, rfl⟩

/-- A wide branch is four bytes of distance that lead inside the code. -/
theorem branchWide_eq_ok {target : Nat} :
    site.branchWide ⟨p, bs⟩ = .ok (target, next)
      ↔ ∃ distance : Int32, site.Reaches distance.toInt target
        ∧ ∃ rest, bs = signedIntBytes distance ++ rest ∧ next = ⟨p + 4, rest⟩ := by
  simp only [branchWide, Reading.bind_eq_ok, signedInt_eq_ok, Reading.lift_eq_ok, place_eq_ok]
  constructor
  · rintro ⟨distance, _, ⟨rest, rfl, rfl⟩, htarget, rfl⟩
    exact ⟨distance, htarget, rest, rfl, rfl⟩
  · rintro ⟨distance, htarget, rest, rfl, rfl⟩
    exact ⟨distance, _, ⟨rest, rfl, rfl⟩, htarget, rfl⟩

/-- Several wide branches are their distances one after the other. -/
theorem branches_eq_ok {n : Nat} {targets : List Nat} :
    site.branches n ⟨p, bs⟩ = .ok (targets, next)
      ↔ ∃ distances : List Int32, distances.length = n
        ∧ List.Forall₂ (fun d t => site.Reaches d.toInt t) distances targets
        ∧ ∃ rest, bs = distances.flatMap signedIntBytes ++ rest ∧ next = ⟨p + 4 * n, rest⟩ := by
  induction n generalizing p bs targets with
  | zero =>
    simp only [branches, Reading.pure_eq_ok, Prod.mk.injEq, List.length_eq_zero_iff]
    constructor
    · rintro ⟨rfl, rfl⟩
      exact ⟨[], rfl, .nil, bs, rfl, rfl⟩
    · rintro ⟨_, rfl, hreach, rest, rfl, rfl⟩
      cases hreach
      exact ⟨rfl, rfl⟩
  | succ n ih =>
    simp only [branches, Reading.bind_eq_ok, branchWide_eq_ok, Reading.pure_eq_ok,
      Prod.mk.injEq]
    constructor
    · rintro ⟨t, _, ⟨d, hd, rest, rfl, rfl⟩, ts, _, hts, rfl, rfl⟩
      obtain ⟨ds, hlen, hds, rest, rfl, rfl⟩ := ih.mp hts
      refine ⟨d :: ds, by rw [List.length_cons, hlen], .cons hd hds, rest, ?_, ?_⟩
      · rw [List.flatMap_cons, List.append_assoc]
      · rw [show p + 4 + 4 * n = p + 4 * (n + 1) by omega]
    · rintro ⟨distances, hlen, hreach, rest, rfl, rfl⟩
      cases hreach with
      | nil => cases hlen
      | @cons d t ds ts hd hds =>
        refine ⟨t, _, ⟨d, hd, _, by rw [List.flatMap_cons, List.append_assoc], rfl⟩, ts, _, ?_,
          rfl, rfl⟩
        refine ih.mpr ⟨ds, by simpa using hlen, hds, rest, rfl, ?_⟩
        rw [show p + 4 + 4 * n = p + 4 * (n + 1) by omega]

/-- The cases of a switch are rows of a key and a distance. -/
theorem cases_eq_ok {n : Nat} {pairs : List (Int32 × Nat)} :
    site.cases n ⟨p, bs⟩ = .ok (pairs, next)
      ↔ ∃ rows, rows.length = n ∧ site.RowsReach rows pairs
        ∧ ∃ rest, bs = rows.flatMap rowBytes ++ rest ∧ next = ⟨p + 8 * n, rest⟩ := by
  induction n generalizing p bs pairs with
  | zero =>
    simp only [cases, Reading.pure_eq_ok, Prod.mk.injEq, List.length_eq_zero_iff]
    constructor
    · rintro ⟨rfl, rfl⟩
      exact ⟨[], rfl, .nil, bs, rfl, rfl⟩
    · rintro ⟨_, rfl, hreach, rest, rfl, rfl⟩
      cases hreach
      exact ⟨rfl, rfl⟩
  | succ n ih =>
    simp only [cases, Reading.bind_eq_ok, signedInt_eq_ok, Reading.pure_eq_ok, Prod.mk.injEq]
    constructor
    · rintro ⟨key, _, ⟨_, rfl, rfl⟩, t, _, ht, ps, _, hps, rfl, rfl⟩
      obtain ⟨d, hd, _, rfl, rfl⟩ := branchWide_eq_ok.mp ht
      obtain ⟨rows, hlen, hrows, rest, rfl, rfl⟩ := ih.mp hps
      refine ⟨(key, d) :: rows, by rw [List.length_cons, hlen], .cons ⟨rfl, hd⟩ hrows, rest, ?_, ?_⟩
      · simp only [List.flatMap_cons, rowBytes, List.append_assoc]
      · rw [show p + 4 + 4 + 8 * n = p + 8 * (n + 1) by omega]
    · rintro ⟨_, hlen, hreach, rest, rfl, rfl⟩
      cases hreach with
      | nil => cases hlen
      | @cons row pair rows ps hrow hrows =>
        obtain ⟨key, d⟩ := row
        obtain ⟨_, t⟩ := pair
        obtain ⟨rfl, hd⟩ := hrow
        refine ⟨key, _, ⟨_, ?_, rfl⟩, t, _,
          branchWide_eq_ok.mpr ⟨d, hd, rows.flatMap rowBytes ++ rest, rfl, rfl⟩, ps, _, ?_, rfl,
          rfl⟩
        · simp only [List.flatMap_cons, rowBytes, List.append_assoc]
        · refine ih.mpr ⟨rows, Nat.succ.inj hlen, hrows, rest, rfl, ?_⟩
          rw [show p + 4 + 4 + 8 * n = p + 8 * (n + 1) by omega]

/-! ## Constants -/

/-- A constant can be pushed exactly if its references lead to its content. -/
theorem loadable_eq_ok {i : ConstIndex} {value : LoadableConstant} :
    site.loadable i = .ok value ↔ LoadableAt site.pool i value := by
  simp only [loadable, Reading.except_bind_eq_ok, Pool.get_eq_ok]
  constructor
  · rintro ⟨c, hc, h⟩
    cases c with
    | integer _ | float _ | long _ | double _ =>
      cases h
      constructor
      exact hc
    | string text =>
      obtain ⟨_, htext, rfl⟩ := Reading.except_map_eq_ok.mp h
      exact .string hc (Pool.text_eq_ok.mp htext)
    | classRef text =>
      obtain ⟨_, htext, rfl⟩ := Reading.except_map_eq_ok.mp h
      exact .classRef ⟨text, hc, Pool.text_eq_ok.mp htext⟩
    | methodType text =>
      obtain ⟨_, htext, rfl⟩ := Reading.except_map_eq_ok.mp h
      exact .methodType hc (Pool.text_eq_ok.mp htext)
    | methodHandle kind index =>
      obtain ⟨⟨m, isInterface⟩, hmember, h⟩ := Reading.except_bind_eq_ok.mp h
      cases h
      exact .methodHandle hc (Pool.member_eq_ok.mp hmember)
    | dynamic bootstrap shape =>
      obtain ⟨⟨name, descriptor⟩, hshape, h⟩ := Reading.except_bind_eq_ok.mp h
      cases h
      exact .dynamic hc (Pool.nameAndType_eq_ok.mp hshape)
    | _ =>
      -- Nothing else can be loaded.
      cases h
  · intro h
    cases h with
    | integer hc | float hc | long hc | double hc => exact ⟨_, hc, rfl⟩
    | string hc htext | methodType hc htext =>
      exact ⟨_, hc, Reading.except_map_eq_ok.mpr ⟨_, Pool.text_eq_ok.mpr htext, rfl⟩⟩
    | classRef hclass =>
      obtain ⟨text, hc, htext⟩ := hclass
      exact ⟨_, hc, Reading.except_map_eq_ok.mpr ⟨_, Pool.text_eq_ok.mpr htext, rfl⟩⟩
    | methodHandle hc hmember =>
      exact ⟨_, hc, Reading.except_bind_eq_ok.mpr ⟨_, Pool.member_eq_ok.mpr hmember, rfl⟩⟩
    | dynamic hc hshape =>
      exact ⟨_, hc, Reading.except_bind_eq_ok.mpr ⟨_, Pool.nameAndType_eq_ok.mpr hshape, rfl⟩⟩

private theorem callSite_eq_ok {i : ConstIndex} {bootstrap : UInt16} {name descriptor : String} :
    site.callSite i = .ok (bootstrap, name, descriptor)
      ↔ CallSiteAt site.pool i bootstrap name descriptor := by
  simp only [callSite, CallSiteAt, Reading.except_bind_eq_ok, Pool.get_eq_ok]
  constructor
  · rintro ⟨c, hc, h⟩
    cases c with
    | invokeDynamic bootstrap shape =>
      obtain ⟨⟨name, descriptor⟩, hshape, h⟩ := Reading.except_bind_eq_ok.mp h
      cases h
      exact ⟨shape, hc, Pool.nameAndType_eq_ok.mp hshape⟩
    | _ => cases h
  · rintro ⟨shape, hc, hshape⟩
    exact ⟨_, hc, Reading.except_bind_eq_ok.mpr ⟨_, Pool.nameAndType_eq_ok.mpr hshape, rfl⟩⟩

/-! ## Instructions -/

/-- Distances take four bytes each. -/
theorem length_flatMap_signedIntBytes (xs : List Int32) :
    (xs.flatMap signedIntBytes).length = 4 * xs.length := by
  induction xs with
  | nil => rfl
  | cons x xs ih =>
    rw [List.flatMap_cons, List.length_append, length_signedIntBytes, ih, List.length_cons]
    omega

/-- Rows take eight bytes each. -/
theorem length_flatMap_rowBytes (rows : List (Int32 × Int32)) :
    (rows.flatMap rowBytes).length = 8 * rows.length := by
  induction rows with
  | nil => rfl
  | cons row rows ih =>
    rw [List.flatMap_cons, List.length_append, rowBytes, List.length_append,
      length_signedIntBytes, length_signedIntBytes, ih, List.length_cons]
    omega

/-- What reading accepts behind an opcode: operands that make up an encoding, with
anything behind them. -/
def Follows (site : Site) (op : UInt8) (i : Instruction Nat) (bs : Bytes) (next : Cursor) : Prop :=
  ∃ front rest, site.Encodes i (op :: front) ∧ bs = front ++ rest
    ∧ next = ⟨site.start + 1 + front.length, rest⟩

/-- What is read as a table switch is spelled as one. -/
private theorem tableSwitch_sound {i : Instruction Nat}
    (h : site.tableSwitch ⟨site.start + 1, bs⟩ = .ok (i, next)) :
    site.Follows 0xAA i bs next := by
  simp only [tableSwitch, Reading.bind_eq_ok, align_eq_ok, Reading.refuse_eq_ok,
    Reading.pure_eq_ok, Prod.mk.injEq] at h
  obtain ⟨_, _, ⟨padding, _, hpadding, haligned, rfl, rfl⟩, default, _, hdefault, low, _, hlow,
    high, _, hhigh, hbounds, -, targets, _, htargets, rfl, rfl⟩ := h
  -- Each reader starts where the one before it stopped.
  obtain ⟨distance, hd, _, rfl, rfl⟩ := branchWide_eq_ok.mp hdefault
  obtain ⟨_, rfl, rfl⟩ := signedInt_eq_ok.mp hlow
  obtain ⟨_, rfl, rfl⟩ := signedInt_eq_ok.mp hhigh
  obtain ⟨distances, hcount, hds, rest, rfl, rfl⟩ := branches_eq_ok.mp htargets
  have hlow : low.toInt ≤ high.toInt := by omega
  have hexact := toNat_entryCount hlow
  refine ⟨_, rest, .tableSwitch hpadding haligned hd hlow (by omega) hds, ?_, ?_⟩
  · simp only [List.append_assoc]
  · simp only [List.length_append, length_signedIntBytes, length_flatMap_signedIntBytes, ← hcount,
      Nat.add_assoc]

/-- What is spelled as a table switch is read as one. The guard on the number of targets lets it
pass, since the targets are there. -/
private theorem tableSwitch_complete {padding : Bytes} {distance low high : Int32}
    {distances : List Int32} {default : Nat} {targets : List Nat} (hpadding : padding.length < 4)
    (haligned : (site.start + 1 + padding.length) % 4 = 0)
    (hdefault : site.Reaches distance.toInt default) (hbounds : low.toInt ≤ high.toInt)
    (hcount : low.toInt + distances.length = high.toInt + 1)
    (htargets : List.Forall₂ (fun d t => site.Reaches d.toInt t) distances targets)
    (hroom : distances.length ≤ site.codeLength) (rest : Bytes) :
    site.tableSwitch ⟨site.start + 1, padding ++ (signedIntBytes distance ++ (signedIntBytes low
        ++ (signedIntBytes high ++ (distances.flatMap signedIntBytes ++ rest))))⟩
      = .ok (.tableSwitch default low targets,
          ⟨site.start + 1 + padding.length + 4 + 4 + 4 + 4 * distances.length, rest⟩) := by
  have hexact := toNat_entryCount hbounds
  have hn : (entryCount low high).toNat = distances.length := by omega
  simp only [tableSwitch, Reading.bind_eq_ok, align_eq_ok, Reading.refuse_eq_ok,
    Reading.pure_eq_ok, Prod.mk.injEq]
  refine ⟨(), _, ⟨padding, _, hpadding, haligned, rfl, rfl⟩,
    default, _, branchWide_eq_ok.mpr ⟨distance, hdefault, _, rfl, rfl⟩,
    low, _, signedInt_eq_ok.mpr ⟨_, rfl, rfl⟩, high, _, signedInt_eq_ok.mpr ⟨_, rfl, rfl⟩,
    by omega, by omega, targets, _, ?_, rfl, rfl⟩
  rw [hn]
  exact branches_eq_ok.mpr ⟨distances, rfl, htargets, rest, rfl, rfl⟩

/-- What is read as a lookup switch is spelled as one. -/
private theorem lookupSwitch_sound {i : Instruction Nat}
    (h : site.lookupSwitch ⟨site.start + 1, bs⟩ = .ok (i, next)) :
    site.Follows 0xAB i bs next := by
  simp only [lookupSwitch, Reading.bind_eq_ok, align_eq_ok, Reading.refuse_eq_ok,
    Reading.pure_eq_ok, Prod.mk.injEq] at h
  obtain ⟨_, _, ⟨padding, _, hpadding, haligned, rfl, rfl⟩, default, _, hdefault, count, _, hcount,
    hsign, -, pairs, _, hpairs, rfl, rfl⟩ := h
  obtain ⟨distance, hd, _, rfl, rfl⟩ := branchWide_eq_ok.mp hdefault
  obtain ⟨_, rfl, rfl⟩ := signedInt_eq_ok.mp hcount
  obtain ⟨rows, hlen, hrows, rest, rfl, rfl⟩ := cases_eq_ok.mp hpairs
  have hrowCount : count.toInt = rows.length := by omega
  refine ⟨_, rest, .lookupSwitch hpadding haligned hd hrowCount hrows, ?_, ?_⟩
  · simp only [List.append_assoc]
  · simp only [List.length_append, length_signedIntBytes, length_flatMap_rowBytes, ← hlen,
      Nat.add_assoc]

/-- What is spelled as a lookup switch is read as one. -/
private theorem lookupSwitch_complete {padding : Bytes} {distance count : Int32}
    {rows : List (Int32 × Int32)} {default : Nat} {pairs : List (Int32 × Nat)}
    (hpadding : padding.length < 4) (haligned : (site.start + 1 + padding.length) % 4 = 0)
    (hdefault : site.Reaches distance.toInt default) (hcount : count.toInt = rows.length)
    (hpairs : site.RowsReach rows pairs) (hroom : rows.length ≤ site.codeLength)
    (rest : Bytes) :
    site.lookupSwitch ⟨site.start + 1, padding ++ (signedIntBytes distance
        ++ (signedIntBytes count ++ (rows.flatMap rowBytes ++ rest)))⟩
      = .ok (.lookupSwitch default pairs,
          ⟨site.start + 1 + padding.length + 4 + 4 + 8 * rows.length, rest⟩) := by
  have hn : count.toInt.toNat = rows.length := by omega
  simp only [lookupSwitch, Reading.bind_eq_ok, align_eq_ok, Reading.refuse_eq_ok,
    Reading.pure_eq_ok, Prod.mk.injEq]
  refine ⟨(), _, ⟨padding, _, hpadding, haligned, rfl, rfl⟩,
    default, _, branchWide_eq_ok.mpr ⟨distance, hdefault, _, rfl, rfl⟩,
    count, _, signedInt_eq_ok.mpr ⟨_, rfl, rfl⟩, by omega, by omega, pairs, _, ?_, rfl, rfl⟩
  rw [hn]
  exact cases_eq_ok.mpr ⟨rows, rfl, hpairs, rest, rfl, rfl⟩

private theorem wide_sound {i : Instruction Nat}
    (h : site.wide ⟨site.start + 1, bs⟩ = .ok (i, next)) : site.Follows 0xC4 i bs next := by
  simp only [wide, Reading.bind_eq_ok, byte_eq_ok] at h
  obtain ⟨op, _, ⟨_, rfl, rfl⟩, h⟩ := h
  by_cases hlocal : Opcode.isLocal op = true
  · simp only [hlocal, if_true, Reading.map_eq_ok, short_eq_ok] at h
    obtain ⟨index, ⟨rest, rfl, rfl⟩, rfl⟩ := h
    exact ⟨_, rest, .wideLocal (Opcode.isLocal_iff.mp hlocal) index, rfl, by simp⟩
  · by_cases hinc : op = 0x84
    · subst hinc
      simp only [hlocal, Bool.false_eq_true, if_false, beq_self_eq_true, if_true,
        Reading.bind_eq_ok, short_eq_ok, Reading.pure_eq_ok, Prod.mk.injEq] at h
      obtain ⟨index, _, ⟨_, rfl, rfl⟩, delta, _, hdelta, rfl, rfl⟩ := h
      obtain ⟨rest, rfl, rfl⟩ := signedShort_eq_ok.mp hdelta
      exact ⟨_, rest, .wideIncrement index delta, by simp, by simp [Nat.add_assoc]⟩
    · simp [hlocal, hinc] at h

/-- Operands that are read are spelled behind the opcode, for each kind of operands. -/
private theorem operands_sound {op : UInt8} {i : Instruction Nat}
    (h : site.operands op ⟨site.start + 1, bs⟩ = .ok (i, next)) : site.Follows op i bs next := by
  unfold operands at h
  -- One case for each kind of operands. The table gives the opcodes of the kind.
  cases hop : Opcode.operands op <;> have htakes := (Opcode.takes_iff op _).mpr hop
    <;> simp only [hop] at h
  case none =>
    rw [Reading.pure_eq_ok, Prod.mk.injEq] at h
    obtain ⟨rfl, rfl⟩ := h
    exact ⟨[], bs, .simple htakes, rfl, rfl⟩
  case pushByte =>
    obtain rfl : op = 0x10 := htakes
    simp only [Reading.bind_eq_ok, signedByte_eq_ok, Reading.pure_eq_ok, Prod.mk.injEq] at h
    obtain ⟨value, _, ⟨rest, rfl, rfl⟩, rfl, rfl⟩ := h
    exact ⟨_, rest, .pushByte value, rfl, rfl⟩
  case pushShort =>
    obtain rfl : op = 0x11 := htakes
    simp only [Reading.bind_eq_ok, signedShort_eq_ok, Reading.pure_eq_ok, Prod.mk.injEq] at h
    obtain ⟨value, _, ⟨rest, rfl, rfl⟩, rfl, rfl⟩ := h
    exact ⟨_, rest, .pushShort value, rfl, by simp⟩
  case constantNarrow =>
    obtain rfl : op = 0x12 := htakes
    simp only [Reading.bind_eq_ok, byte_eq_ok, Reading.lift_eq_ok, loadable_eq_ok,
      Reading.pure_eq_ok, Prod.mk.injEq] at h
    obtain ⟨index, _, ⟨rest, rfl, rfl⟩, value, _, ⟨hvalue, rfl⟩, rfl, rfl⟩ := h
    exact ⟨_, rest, .constantNarrow hvalue, rfl, rfl⟩
  case constantWide =>
    simp only [Reading.bind_eq_ok, short_eq_ok, Reading.lift_eq_ok, loadable_eq_ok,
      Reading.pure_eq_ok, Prod.mk.injEq] at h
    obtain ⟨index, _, ⟨rest, rfl, rfl⟩, value, _, ⟨hvalue, rfl⟩, rfl, rfl⟩ := h
    exact ⟨_, rest, .constantWide htakes hvalue, rfl, by simp⟩
  case localIndex =>
    simp only [Reading.bind_eq_ok, byte_eq_ok, Reading.pure_eq_ok, Prod.mk.injEq] at h
    obtain ⟨index, _, ⟨rest, rfl, rfl⟩, rfl, rfl⟩ := h
    exact ⟨_, rest, .localIndex htakes index, rfl, rfl⟩
  case increment =>
    obtain rfl : op = 0x84 := htakes
    simp only [Reading.bind_eq_ok, byte_eq_ok, Reading.pure_eq_ok, Prod.mk.injEq] at h
    obtain ⟨index, _, ⟨_, rfl, rfl⟩, delta, _, hdelta, rfl, rfl⟩ := h
    obtain ⟨rest, rfl, rfl⟩ := signedByte_eq_ok.mp hdelta
    exact ⟨_, rest, .increment index delta, rfl, rfl⟩
  case branch =>
    simp only [Reading.map_eq_ok, branch_eq_ok] at h
    obtain ⟨target, ⟨distance, htarget, rest, rfl, rfl⟩, rfl⟩ := h
    exact ⟨_, rest, .branch htakes htarget, rfl, by simp⟩
  case branchWide =>
    simp only [Reading.map_eq_ok, branchWide_eq_ok] at h
    obtain ⟨target, ⟨distance, htarget, rest, rfl, rfl⟩, rfl⟩ := h
    exact ⟨_, rest, .branchWide htakes htarget, rfl, by simp⟩
  case tableSwitch =>
    obtain rfl : op = 0xAA := htakes
    exact tableSwitch_sound h
  case lookupSwitch =>
    obtain rfl : op = 0xAB := htakes
    exact lookupSwitch_sound h
  case field =>
    simp only [Reading.bind_eq_ok, short_eq_ok, Reading.lift_eq_ok, Prod.exists,
      Pool.member_eq_ok, Reading.pure_eq_ok, Prod.mk.injEq] at h
    obtain ⟨index, _, ⟨rest, rfl, rfl⟩, m, b, _, ⟨hmember, rfl⟩, rfl, rfl⟩ := h
    exact ⟨_, rest, .field htakes hmember, rfl, by simp⟩
  case method =>
    simp only [Reading.bind_eq_ok, short_eq_ok, Reading.lift_eq_ok, Prod.exists,
      Pool.member_eq_ok, Reading.pure_eq_ok, Prod.mk.injEq] at h
    obtain ⟨index, _, ⟨rest, rfl, rfl⟩, m, b, _, ⟨hmember, rfl⟩, rfl, rfl⟩ := h
    exact ⟨_, rest, .method htakes hmember, rfl, by simp⟩
  case interfaceMethod =>
    obtain rfl : op = 0xB9 := htakes
    simp only [Reading.bind_eq_ok, short_eq_ok, Reading.lift_eq_ok, Prod.exists,
      Pool.member_eq_ok, Reading.pure_eq_ok, Prod.mk.injEq] at h
    obtain ⟨index, _, ⟨_, rfl, rfl⟩, ignored, _, hignored, m, b, _, ⟨hmember, rfl⟩, rfl, rfl⟩ := h
    obtain ⟨rest, rfl, rfl⟩ := short_eq_ok.mp hignored
    exact ⟨_, rest, .interfaceMethod hmember ignored, by simp, by simp [Nat.add_assoc]⟩
  case dynamicCall =>
    obtain rfl : op = 0xBA := htakes
    simp only [Reading.bind_eq_ok, short_eq_ok, Reading.lift_eq_ok, Prod.exists,
      callSite_eq_ok, Reading.pure_eq_ok, Prod.mk.injEq] at h
    obtain ⟨index, _, ⟨_, rfl, rfl⟩, ignored, _, hignored, bootstrap, name, descriptor, _,
      ⟨hcall, rfl⟩, rfl, rfl⟩ := h
    obtain ⟨rest, rfl, rfl⟩ := short_eq_ok.mp hignored
    exact ⟨_, rest, .dynamicCall hcall ignored, by simp, by simp [Nat.add_assoc]⟩
  case type =>
    simp only [Reading.bind_eq_ok, short_eq_ok, Reading.lift_eq_ok, Pool.className_eq_ok,
      Reading.pure_eq_ok, Prod.mk.injEq] at h
    obtain ⟨index, _, ⟨rest, rfl, rfl⟩, name, _, ⟨hclass, rfl⟩, rfl, rfl⟩ := h
    exact ⟨_, rest, .type htakes hclass, rfl, by simp⟩
  case newArray =>
    obtain rfl : op = 0xBC := htakes
    simp only [Reading.bind_eq_ok, byte_eq_ok] at h
    obtain ⟨code, _, ⟨rest, rfl, rfl⟩, h⟩ := h
    cases hcode : BaseType.ofArrayCode? code with
    | none => simp [hcode] at h
    | some element =>
      simp only [hcode, Reading.pure_eq_ok, Prod.mk.injEq] at h
      obtain ⟨rfl, rfl⟩ := h
      rw [BaseType.ofArrayCode?_eq_some] at hcode
      subst hcode
      exact ⟨_, rest, .newArray element, rfl, rfl⟩
  case multiArray =>
    obtain rfl : op = 0xC5 := htakes
    simp only [Reading.bind_eq_ok, short_eq_ok, Reading.lift_eq_ok, Pool.className_eq_ok,
      Reading.pure_eq_ok, Prod.mk.injEq] at h
    obtain ⟨index, _, ⟨_, rfl, rfl⟩, name, _, ⟨hclass, rfl⟩, dimensions, _, hdims, rfl, rfl⟩ := h
    obtain ⟨rest, rfl, rfl⟩ := byte_eq_ok.mp hdims
    exact ⟨_, rest, .multiArray hclass dimensions, by simp, by simp [Nat.add_assoc]⟩
  case wide =>
    obtain rfl : op = 0xC4 := htakes
    exact wide_sound h

private theorem wide_complete_local (site : Site) (p : Nat) {op : UInt8}
    (hop : Opcode.Takes op .localIndex) (index : UInt16) (rest : Bytes) :
    site.wide ⟨p, op :: (shortBytes index ++ rest)⟩
      = .ok (.localAccess op index, ⟨p + 1 + 2, rest⟩) := by
  simp only [wide, Reading.bind_eq_ok, byte_eq_ok]
  refine ⟨op, _, ⟨_, rfl, rfl⟩, ?_⟩
  rw [if_pos (Opcode.isLocal_iff.mpr hop), Reading.map_eq_ok]
  exact ⟨index, short_eq_ok.mpr ⟨rest, rfl, rfl⟩, rfl⟩

private theorem wide_complete_increment (site : Site) (p : Nat) (index : UInt16) (delta : Int16)
    (rest : Bytes) :
    site.wide ⟨p, 0x84 :: (shortBytes index ++ (signedShortBytes delta ++ rest))⟩
      = .ok (.increment index delta, ⟨p + 1 + 2 + 2, rest⟩) := by
  simp only [wide, Reading.bind_eq_ok, byte_eq_ok]
  refine ⟨0x84, _, ⟨_, rfl, rfl⟩, ?_⟩
  rw [if_neg (by decide), if_pos (by decide)]
  simp only [Reading.bind_eq_ok, Reading.pure_eq_ok]
  exact ⟨index, _, short_eq_ok.mpr ⟨_, rfl, rfl⟩, delta, _,
    signedShort_eq_ok.mpr ⟨rest, rfl, rfl⟩, rfl⟩

/-- Operands that are spelled behind the opcode are read, for each kind of operands. -/
private theorem operands_complete {op : UInt8} {i : Instruction Nat} {front rest : Bytes}
    (henc : site.Encodes i (op :: front))
    (hroom : site.start + (op :: front).length ≤ site.codeLength) :
    site.operands op ⟨site.start + 1, front ++ rest⟩
      = .ok (i, ⟨site.start + 1 + front.length, rest⟩) := by
  unfold operands
  -- Every form has the kind of operands that its opcode has in the table.
  cases henc with
  | simple hop =>
    simp only [(Opcode.takes_iff _ _).mp hop]
    rfl
  | pushByte value =>
    simp only [show Opcode.operands 0x10 = .pushByte from rfl, Reading.bind_eq_ok,
      signedByte_eq_ok, Reading.pure_eq_ok]
    exact ⟨value, _, ⟨rest, rfl, rfl⟩, rfl⟩
  | pushShort value =>
    simp only [show Opcode.operands 0x11 = .pushShort from rfl, Reading.bind_eq_ok,
      signedShort_eq_ok, Reading.pure_eq_ok]
    exact ⟨value, _, ⟨rest, rfl, rfl⟩, by simp⟩
  | constantNarrow hvalue =>
    simp only [show Opcode.operands 0x12 = .constantNarrow from rfl, Reading.bind_eq_ok,
      byte_eq_ok, Reading.lift_eq_ok, loadable_eq_ok, Reading.pure_eq_ok]
    exact ⟨_, _, ⟨rest, rfl, rfl⟩, _, _, ⟨hvalue, rfl⟩, rfl⟩
  | constantWide hop hvalue =>
    simp only [(Opcode.takes_iff _ _).mp hop, Reading.bind_eq_ok, short_eq_ok,
      Reading.lift_eq_ok, loadable_eq_ok, Reading.pure_eq_ok]
    exact ⟨_, _, ⟨rest, rfl, rfl⟩, _, _, ⟨hvalue, rfl⟩, by simp⟩
  | localIndex hop index =>
    simp only [(Opcode.takes_iff _ _).mp hop, Reading.bind_eq_ok, byte_eq_ok,
      Reading.pure_eq_ok]
    exact ⟨index, _, ⟨rest, rfl, rfl⟩, rfl⟩
  | increment index delta =>
    simp only [show Opcode.operands 0x84 = .increment from rfl, Reading.bind_eq_ok,
      byte_eq_ok, Reading.pure_eq_ok]
    exact ⟨index, _, ⟨_, rfl, rfl⟩, delta, _, signedByte_eq_ok.mpr ⟨rest, rfl, rfl⟩, rfl⟩
  | branch hop htarget =>
    simp only [(Opcode.takes_iff _ _).mp hop, Reading.map_eq_ok, branch_eq_ok]
    exact ⟨_, ⟨_, htarget, rest, rfl, by simp⟩, rfl⟩
  | branchWide hop htarget =>
    simp only [(Opcode.takes_iff _ _).mp hop, Reading.map_eq_ok, branchWide_eq_ok]
    exact ⟨_, ⟨_, htarget, rest, rfl, by simp⟩, rfl⟩
  | tableSwitch hpadding haligned hdefault hbounds hcount htargets =>
    simp only [List.length_cons, List.length_append, length_flatMap_signedIntBytes] at hroom
    have hread := tableSwitch_complete hpadding haligned hdefault hbounds hcount htargets
      (by omega) rest
    simp only [List.append_assoc, List.length_append, length_signedIntBytes,
      length_flatMap_signedIntBytes, Nat.add_assoc] at hread ⊢
    exact hread
  | lookupSwitch hpadding haligned hdefault hcount hpairs =>
    simp only [List.length_cons, List.length_append, length_flatMap_rowBytes] at hroom
    have hread := lookupSwitch_complete hpadding haligned hdefault hcount hpairs (by omega) rest
    simp only [List.append_assoc, List.length_append, length_signedIntBytes,
      length_flatMap_rowBytes, Nat.add_assoc] at hread ⊢
    exact hread
  | field hop hmember | method hop hmember =>
    simp only [(Opcode.takes_iff _ _).mp hop, Reading.bind_eq_ok, short_eq_ok,
      Reading.lift_eq_ok, Prod.exists, Pool.member_eq_ok, Reading.pure_eq_ok]
    exact ⟨_, _, ⟨rest, rfl, rfl⟩, _, _, _, ⟨hmember, rfl⟩, by simp⟩
  | interfaceMethod hmember ignored =>
    simp only [show Opcode.operands 0xB9 = .interfaceMethod from rfl, Reading.bind_eq_ok,
      short_eq_ok, Reading.lift_eq_ok, Prod.exists, Pool.member_eq_ok, Reading.pure_eq_ok,
      List.append_assoc]
    exact ⟨_, _, ⟨_, rfl, rfl⟩, ignored, _, short_eq_ok.mpr ⟨rest, rfl, rfl⟩, _, _, _,
      ⟨hmember, rfl⟩, by simp [Nat.add_assoc]⟩
  | dynamicCall hcall ignored =>
    simp only [show Opcode.operands 0xBA = .dynamicCall from rfl, Reading.bind_eq_ok,
      short_eq_ok, Reading.lift_eq_ok, Prod.exists, callSite_eq_ok, Reading.pure_eq_ok,
      List.append_assoc]
    exact ⟨_, _, ⟨_, rfl, rfl⟩, ignored, _, short_eq_ok.mpr ⟨rest, rfl, rfl⟩, _, _, _, _,
      ⟨hcall, rfl⟩, by simp [Nat.add_assoc]⟩
  | type hop hclass =>
    simp only [(Opcode.takes_iff _ _).mp hop, Reading.bind_eq_ok, short_eq_ok,
      Reading.lift_eq_ok, Pool.className_eq_ok, Reading.pure_eq_ok]
    exact ⟨_, _, ⟨rest, rfl, rfl⟩, _, _, ⟨hclass, rfl⟩, by simp⟩
  | newArray element =>
    simp only [show Opcode.operands 0xBC = .newArray from rfl, Reading.bind_eq_ok, byte_eq_ok]
    refine ⟨_, _, ⟨rest, rfl, rfl⟩, ?_⟩
    rw [(BaseType.ofArrayCode?_eq_some _ _).mpr rfl]
    rfl
  | multiArray hclass dimensions =>
    simp only [show Opcode.operands 0xC5 = .multiArray from rfl, Reading.bind_eq_ok,
      short_eq_ok, Reading.lift_eq_ok, Pool.className_eq_ok, Reading.pure_eq_ok,
      List.append_assoc]
    exact ⟨_, _, ⟨_, rfl, rfl⟩, _, _, ⟨hclass, rfl⟩, dimensions, _,
      byte_eq_ok.mpr ⟨rest, rfl, rfl⟩, by simp [Nat.add_assoc]⟩
  | wideLocal hop index =>
    show site.wide _ = _
    have hread := site.wide_complete_local (site.start + 1) hop index rest
    simpa [Nat.add_assoc] using hread
  | wideIncrement index delta =>
    show site.wide _ = _
    have hread := site.wide_complete_increment (site.start + 1) index delta rest
    simpa [Nat.add_assoc] using hread

/-- Reading an instruction succeeds exactly if the code goes on with an encoding of it. -/
theorem instruction_eq_ok {i : Instruction Nat}
    (hroom : site.start + bs.length = site.codeLength) :
    site.instruction ⟨site.start, bs⟩ = .ok (i, next)
      ↔ ∃ front rest, site.Encodes i front ∧ bs = front ++ rest
        ∧ next = ⟨site.start + front.length, rest⟩ := by
  unfold instruction
  simp only [Reading.bind_eq_ok, byte_eq_ok]
  constructor
  · rintro ⟨op, _, ⟨_, rfl, rfl⟩, h⟩
    obtain ⟨front, rest, henc, rfl, rfl⟩ := operands_sound h
    refine ⟨op :: front, rest, henc, rfl, ?_⟩
    rw [List.length_cons, Nat.add_assoc, Nat.add_comm 1]
  · rintro ⟨front, rest, henc, rfl, rfl⟩
    cases front with
    | nil => cases henc
    | cons op front =>
      rw [List.length_append] at hroom
      refine ⟨op, _, ⟨front ++ rest, rfl, rfl⟩, ?_⟩
      rw [operands_complete henc (by omega), List.length_cons, Nat.add_assoc, Nat.add_comm 1]

end Site

end Bytecode

end Classdesk
