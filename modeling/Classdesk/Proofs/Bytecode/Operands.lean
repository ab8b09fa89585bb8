import Classdesk.Bytecode.Decode
import Classdesk.Proofs.Reading
import Mathlib.Algebra.Group.Nat.Even
import Mathlib.Tactic.NormNum

/-!
# What the operands of an instruction say

The decoder walks through the code with a cursor. Here the same operands are
found without a cursor, by their positions in the code: `wordAt` and `signedAt`
are the numbers at a position, and `displacements` are the relative distances of
the instruction at an offset, straight from its bytes. The main result is

> `instruction_ok`: the places of an instruction that was read at `o` are `o` plus
> its displacements.

Every reader has one lemma that says what its success means: the value it gave,
in terms of `wordAt` and `signedAt`, and where it stopped.
-/

namespace Classdesk

/-- Whether an instruction takes bytes of the code. Labels and line numbers do not. -/
def Instruction.isReal {τ : Type} : Instruction τ → Bool
  | .label _ | .lineNumber _ => false
  | _ => true

namespace Bytecode

/-- The cursor at a position of some code. -/
def cursorAt (code : Bytes) (p : Nat) : Cursor := ⟨p, code.drop p⟩

/-- The number in the `w` bytes from a position on. -/
def wordAt (code : Bytes) (w p : Nat) : Nat := Bytes.toNat ((code.drop p).take w)

/-- The same number in two's complement. -/
def signedAt (code : Bytes) (w p : Nat) : Int := Int.bmod (wordAt code w p) (256 ^ w)

/-- The first multiple of four from a position on. -/
def alignUp (p : Nat) : Nat := p + (4 - p % 4) % 4

/-- The relative distances of the instruction at an offset, in the order of its
operands; the default of a switch first. Only jumps and switches have some. -/
def displacements (code : Bytes) (o : Nat) : List Int :=
  let opcode := code.getD o 0
  let p := alignUp (o + 1)
  if (0x99 ≤ opcode ∧ opcode ≤ 0xA8) ∨ opcode = 0xC6 ∨ opcode = 0xC7 then
    [signedAt code 2 (o + 1)]
  else if opcode = 0xC8 ∨ opcode = 0xC9 then [signedAt code 4 (o + 1)]
  else if opcode = 0xAA then
    let count := (signedAt code 4 (p + 8) - signedAt code 4 (p + 4) + 1).toNat
    signedAt code 4 p :: (List.range count).map fun k => signedAt code 4 (p + 12 + 4 * k)
  else if opcode = 0xAB then
    let count := (signedAt code 4 (p + 4)).toNat
    signedAt code 4 p :: (List.range count).map fun k => signedAt code 4 (p + 8 + 8 * k + 4)
  else []

namespace Site

variable {site : Site} {code : Bytes} {p : Nat} {next : Cursor}

/-! ## Numbers -/

/-- A word that was read is the number in the next bytes. -/
theorem word_ok {w n : Nat} (h : site.word w (cursorAt code p) = .ok (n, next)) :
    w ≤ code.length - p ∧ n = wordAt code w p ∧ next = cursorAt code (p + w) := by
  simp only [word] at h
  by_cases hlen : ((cursorAt code p).rest.take w).length = w
  · rw [if_pos hlen] at h
    cases h
    refine ⟨?_, rfl, ?_⟩
    · rw [show (cursorAt code p).rest = code.drop p from rfl, List.length_take,
        List.length_drop] at hlen
      omega
    · simp [cursorAt, List.drop_drop]
  · rw [if_neg hlen] at h
    cases h

/-- A byte that was read is the next one. -/
theorem byte_ok {b : UInt8} (h : site.byte (cursorAt code p) = .ok (b, next)) :
    p < code.length ∧ b = code.getD p 0 ∧ next = cursorAt code (p + 1) := by
  simp only [byte, Reading.map_eq_ok] at h
  obtain ⟨n, hword, hb⟩ := h
  obtain ⟨hlen, hn, hnext⟩ := word_ok hword
  have hp : p < code.length := by omega
  refine ⟨hp, ?_, hnext⟩
  have htake : (code.drop p).take 1 = [code.getD p 0] := by
    rw [List.drop_eq_getElem_cons hp, List.take_succ_cons, List.take_zero,
      List.getD_eq_getElem?_getD, List.getElem?_eq_getElem hp, Option.getD_some]
  rw [← hb, hn, wordAt, htake]
  simp [Bytes.toNat]

private theorem short_ok {n : UInt16} (h : site.short (cursorAt code p) = .ok (n, next)) :
    n = UInt16.ofNat (wordAt code 2 p) ∧ next = cursorAt code (p + 2) := by
  simp only [short, Reading.map_eq_ok] at h
  obtain ⟨m, hword, hn⟩ := h
  obtain ⟨-, hm, hnext⟩ := word_ok hword
  exact ⟨by rw [← hn, hm], hnext⟩

/-- Four bytes with a sign, as they stand in the code. -/
theorem signedInt_ok {n : Int32} (h : site.signedInt (cursorAt code p) = .ok (n, next)) :
    n.toInt = signedAt code 4 p ∧ next = cursorAt code (p + 4) := by
  simp only [signedInt, Reading.map_eq_ok] at h
  obtain ⟨m, hword, hn⟩ := h
  obtain ⟨-, hm, hnext⟩ := word_ok hword
  refine ⟨?_, hnext⟩
  rw [← hn, hm, Int32.toInt_ofNat', signedAt]
  rfl

/-- Aligning moves the cursor to the next multiple of four. -/
theorem align_ok {u : Unit} (h : site.align (cursorAt code p) = .ok (u, next)) :
    next = cursorAt code (alignUp p) := by
  unfold align at h
  cases hw : site.word ((4 - p % 4) % 4) (cursorAt code p) with
  | error e =>
    rw [show (cursorAt code p).position = p from rfl, hw] at h
    simp [Except.map] at h
  | ok r =>
    rw [show (cursorAt code p).position = p from rfl, hw] at h
    simp only [Except.map, Except.ok.injEq, Prod.mk.injEq] at h
    rw [← h.2, (word_ok hw).2.2, alignUp]

/-! ## Distances -/

private theorem place_ok {distance : Int} {t : Nat} (h : site.place distance = .ok t) :
    (t : Int) = site.start + distance := by
  simp only [place] at h
  split at h
  next hin =>
    rw [Except.ok.injEq] at h
    rw [← h]
    exact Int.toNat_of_nonneg hin.1
  next => exact absurd h (by simp)

private theorem branch_ok {t : Nat} (h : site.branch (cursorAt code p) = .ok (t, next)) :
    (t : Int) = site.start + signedAt code 2 p ∧ next = cursorAt code (p + 2) := by
  simp only [branch, Reading.bind_eq_ok, Reading.map_eq_ok, Reading.lift_eq_ok] at h
  obtain ⟨distance, c, ⟨n, hword, hd⟩, hplace, hnext⟩ := h
  obtain ⟨-, hn, hc⟩ := word_ok hword
  refine ⟨?_, hnext.trans hc⟩
  rw [place_ok hplace, ← hd, hn, Int16.toInt_ofNat', signedAt]
  rfl

/-- A wide branch leads as far from the start as its four bytes say. -/
theorem branchWide_ok {t : Nat} (h : site.branchWide (cursorAt code p) = .ok (t, next)) :
    (t : Int) = site.start + signedAt code 4 p ∧ next = cursorAt code (p + 4) := by
  simp only [branchWide, Reading.bind_eq_ok, Reading.lift_eq_ok] at h
  obtain ⟨distance, c, hread, hplace, hnext⟩ := h
  obtain ⟨hd, hc⟩ := signedInt_ok hread
  exact ⟨by rw [place_ok hplace, hd], hnext.trans hc⟩

/-- The distances of a table stand behind each other. -/
theorem branches_ok {n : Nat} {ts : List Nat}
    (h : site.branches n (cursorAt code p) = .ok (ts, next)) :
    ts.map Int.ofNat
        = (List.range n).map (fun k => site.start + signedAt code 4 (p + 4 * k))
      ∧ next = cursorAt code (p + 4 * n) := by
  induction n generalizing p ts with
  | zero =>
    simp only [branches, Reading.pure_eq_ok, Prod.mk.injEq] at h
    obtain ⟨rfl, rfl⟩ := h
    exact ⟨by simp, by simp⟩
  | succ n ih =>
    simp only [branches, Reading.bind_eq_ok, Reading.pure_eq_ok, Prod.mk.injEq] at h
    obtain ⟨t, c, hfirst, others, c', hothers, rfl, rfl⟩ := h
    obtain ⟨ht, rfl⟩ := branchWide_ok hfirst
    obtain ⟨hts, rfl⟩ := ih hothers
    -- The distances behind the first one start four bytes later.
    refine ⟨?_, by rw [show p + 4 + 4 * n = p + 4 * (n + 1) from by omega]⟩
    rw [List.map_cons, hts, List.range_succ_eq_map, List.map_cons, List.map_map,
      show p + 4 * 0 = p from by omega, ← ht]
    refine List.cons_eq_cons.mpr ⟨rfl, List.map_congr_left fun k _ => ?_⟩
    rw [Function.comp_apply, show p + 4 + 4 * k = p + 4 * k.succ from by omega]

/-- In the pairs of a lookup switch every distance stands behind its value. -/
theorem cases_ok {n : Nat} {pairs : List (Int32 × Nat)}
    (h : site.cases n (cursorAt code p) = .ok (pairs, next)) :
    (pairs.map Prod.snd).map Int.ofNat
        = (List.range n).map (fun k => site.start + signedAt code 4 (p + 8 * k + 4))
      ∧ next = cursorAt code (p + 8 * n) := by
  induction n generalizing p pairs with
  | zero =>
    simp only [cases, Reading.pure_eq_ok, Prod.mk.injEq] at h
    obtain ⟨rfl, rfl⟩ := h
    exact ⟨by simp, by simp⟩
  | succ n ih =>
    simp only [cases, Reading.bind_eq_ok, Reading.pure_eq_ok, Prod.mk.injEq] at h
    obtain ⟨key, c, hkey, t, c', hfirst, others, c'', hothers, rfl, rfl⟩ := h
    obtain ⟨-, rfl⟩ := signedInt_ok hkey
    obtain ⟨ht, rfl⟩ := branchWide_ok hfirst
    obtain ⟨hts, rfl⟩ := ih hothers
    refine ⟨?_, by rw [show p + 4 + 4 + 8 * n = p + 8 * (n + 1) from by omega]⟩
    rw [List.map_cons, List.map_cons, hts, List.range_succ_eq_map, List.map_cons,
      List.map_map, show p + 8 * 0 + 4 = p + 4 from by omega, ← ht]
    refine List.cons_eq_cons.mpr ⟨rfl, List.map_congr_left fun k _ => ?_⟩
    rw [Function.comp_apply, show p + 4 + 4 + 8 * k + 4 = p + 8 * k.succ + 4 from by omega]

/-- The number of targets is exact, whatever the bounds are: the difference of two 32-bit
numbers is far from the limits of 64 bits. -/
theorem toNat_entryCount {low high : Int32} (h : low.toInt ≤ high.toInt) :
    ((entryCount low high).toNat : Int) = high.toInt - low.toInt + 1 := by
  have hlow := low.le_toInt
  have hhigh := high.toInt_lt
  have hdifference : (high.toInt64 - low.toInt64).toInt = high.toInt - low.toInt := by
    rw [Int64.toInt_sub, Int32.toInt_toInt64, Int32.toInt_toInt64]
    exact Int.bmod_eq_of_le (by omega) (by omega)
  have hcount : (high.toInt64 - low.toInt64 + 1).toInt = high.toInt - low.toInt + 1 := by
    rw [Int64.toInt_add, hdifference, Int64.toInt_one]
    exact Int.bmod_eq_of_le (by omega) (by omega)
  have hpos : 0 ≤ high.toInt64 - low.toInt64 + 1 := by
    rw [Int64.le_iff_toInt_le, hcount, Int64.toInt_zero]
    omega
  rw [entryCount, Int64.toNat_toUInt64_of_le hpos, ← Int64.toInt_eq_toNatClampNeg hpos, hcount]

/-- A table switch that was read has the bounds and targets of its bytes. -/
private theorem tableSwitch_ok {i : Instruction Nat}
    (h : site.tableSwitch (cursorAt code p) = .ok (i, next)) :
    let a := alignUp p
    let count := (signedAt code 4 (a + 8) - signedAt code 4 (a + 4) + 1).toNat
    ∃ default low targets, i = .tableSwitch default low targets
      ∧ (default : Int) = site.start + signedAt code 4 a
      ∧ targets.map Int.ofNat
          = (List.range count).map (fun k => site.start + signedAt code 4 (a + 12 + 4 * k))
      ∧ next = cursorAt code (a + 12 + 4 * count) := by
  simp only [tableSwitch, Reading.bind_eq_ok, Reading.refuse_eq_ok, Reading.pure_eq_ok,
    Prod.mk.injEq] at h
  obtain ⟨_, _, halign, default, _, hdefault, low, _, hlow, high, _, hhigh, hbounds, -, targets, _,
    htargets, rfl, rfl⟩ := h
  -- Each reader starts where the one before it stopped.
  obtain rfl := align_ok halign
  obtain ⟨hd, rfl⟩ := branchWide_ok hdefault
  obtain ⟨hl, rfl⟩ := signedInt_ok hlow
  obtain ⟨hh, rfl⟩ := signedInt_ok hhigh
  have hcount := toNat_entryCount (Int.not_lt.mp hbounds)
  rw [hh, hl] at hcount
  rw [← Int.toNat_natCast (entryCount low high).toNat, hcount] at htargets
  obtain ⟨hts, rfl⟩ := branches_ok htargets
  exact ⟨default, low, targets, rfl, hd, hts, rfl⟩

/-- A lookup switch that was read has the keys and targets of its bytes. -/
private theorem lookupSwitch_ok {i : Instruction Nat}
    (h : site.lookupSwitch (cursorAt code p) = .ok (i, next)) :
    let a := alignUp p
    let count := (signedAt code 4 (a + 4)).toNat
    ∃ default pairs, i = .lookupSwitch default pairs
      ∧ (default : Int) = site.start + signedAt code 4 a
      ∧ (pairs.map Prod.snd).map Int.ofNat
          = (List.range count).map (fun k => site.start + signedAt code 4 (a + 8 + 8 * k + 4))
      ∧ next = cursorAt code (a + 8 + 8 * count) := by
  simp only [lookupSwitch, Reading.bind_eq_ok, Reading.refuse_eq_ok, Reading.pure_eq_ok,
    Prod.mk.injEq] at h
  obtain ⟨_, _, halign, default, _, hdefault, count, _, hcount, -, -, pairs, _, hpairs, rfl,
    rfl⟩ := h
  obtain rfl := align_ok halign
  obtain ⟨hd, rfl⟩ := branchWide_ok hdefault
  obtain ⟨hn, rfl⟩ := signedInt_ok hcount
  rw [hn] at hpairs
  obtain ⟨hts, rfl⟩ := cases_ok hpairs
  exact ⟨default, pairs, rfl, hd, hts, rfl⟩

/-! ## Instructions -/

/-- None of the instructions behind `wide` has places. -/
theorem wide_ok {i : Instruction Nat} (h : site.wide (cursorAt code p) = .ok (i, next)) :
    i.isReal = true ∧ i.places = [] ∧ ∃ q, p < q ∧ next = cursorAt code q := by
  simp only [wide, Reading.bind_eq_ok] at h
  obtain ⟨opcode, _, hbyte, h⟩ := h
  obtain ⟨-, -, rfl⟩ := byte_ok hbyte
  by_cases hlocal : Opcode.isLocal opcode = true
  · simp only [hlocal, if_true, Reading.map_eq_ok] at h
    obtain ⟨_, hshort, rfl⟩ := h
    obtain ⟨-, rfl⟩ := short_ok hshort
    exact ⟨rfl, rfl, _, by omega, rfl⟩
  · by_cases hinc : (opcode == 0x84) = true
    · simp only [hlocal, hinc, if_true, Bool.false_eq_true, if_false, Reading.bind_eq_ok,
        Reading.map_eq_ok, Reading.pure_eq_ok, Prod.mk.injEq] at h
      obtain ⟨_, _, hshort, _, _, ⟨_, hword, -⟩, rfl, rfl⟩ := h
      obtain ⟨-, rfl⟩ := short_ok hshort
      obtain ⟨-, -, rfl⟩ := word_ok hword
      exact ⟨rfl, rfl, _, by omega, rfl⟩
    · simp [hlocal, hinc] at h

/-- A statement about bytes holds if it holds of the 256 numbers. -/
theorem forall_byte {P : UInt8 → Prop} (h : ∀ n < 256, P (UInt8.ofNat n)) (b : UInt8) :
    P b := by
  have hb := h b.toNat b.toNat_lt
  rwa [UInt8.ofNat_toNat] at hb

/-- The four kinds of opcodes with displacements. -/
theorem branching_opcodes (op : UInt8) :
    (((0x99 ≤ op ∧ op ≤ 0xA8) ∨ op = 0xC6 ∨ op = 0xC7) ↔ Opcode.operands op = .branch)
      ∧ ((op = 0xC8 ∨ op = 0xC9) ↔ Opcode.operands op = .branchWide)
      ∧ (op = 0xAA ↔ Opcode.operands op = .tableSwitch)
      ∧ (op = 0xAB ↔ Opcode.operands op = .lookupSwitch) := by
  revert op
  -- The table of opcodes has no structure to split on, so every byte is looked up.
  refine forall_byte ?_
  decide +kernel

/-- The displacements by the kind of operands. -/
theorem displacements_eq (code : Bytes) (o : Nat) :
    displacements code o =
      match Opcode.operands (code.getD o 0) with
      | .branch => [signedAt code 2 (o + 1)]
      | .branchWide => [signedAt code 4 (o + 1)]
      | .tableSwitch =>
        let a := alignUp (o + 1)
        let count := (signedAt code 4 (a + 8) - signedAt code 4 (a + 4) + 1).toNat
        signedAt code 4 a :: (List.range count).map fun k => signedAt code 4 (a + 12 + 4 * k)
      | .lookupSwitch =>
        let a := alignUp (o + 1)
        let count := (signedAt code 4 (a + 4)).toNat
        signedAt code 4 a ::
          (List.range count).map fun k => signedAt code 4 (a + 8 + 8 * k + 4)
      | _ => [] := by
  obtain ⟨hbranch, hwide, htable, hlookup⟩ := branching_opcodes (code.getD o 0)
  simp only [displacements, hbranch, hwide, htable, hlookup]
  cases Opcode.operands (code.getD o 0) <;> simp

/-- What it means that `i` was read off the code at `o`, with the cursor left at
`next`: it takes bytes, and its places are those its displacements lead to. -/
structure ReadAt (code : Bytes) (o : Nat) (i : Instruction Nat) (next : Cursor) : Prop where
  real : i.isReal = true
  places : i.places.map Int.ofNat = (displacements code o).map (fun d => (o : Int) + d)
  advances : ∃ q, o < q ∧ next = cursorAt code q

/-- An instruction without places is read where there are no displacements. -/
theorem ReadAt.of_nil {o q : Nat} {i : Instruction Nat} (hreal : i.isReal = true)
    (hplaces : i.places = []) (hdisp : displacements code o = []) (hq : o < q) :
    ReadAt code o i (cursorAt code q) :=
  ⟨hreal, by rw [hplaces, hdisp]; rfl, q, hq, rfl⟩

/-- Whatever the operands, the places of an instruction are where its bytes lead to. -/
private theorem operands_ok {o : Nat} {i : Instruction Nat} (hstart : site.start = o)
    (h : site.operands (code.getD o 0) (cursorAt code (o + 1)) = .ok (i, next)) :
    ReadAt code o i next := by
  subst hstart
  have hdisp := displacements_eq code site.start
  unfold operands at h
  -- One case for each way to store operands; only jumps and switches have places.
  cases hop : Opcode.operands (code.getD site.start 0) with
  | none =>
    simp only [hop, Reading.pure_eq_ok, Prod.mk.injEq] at h hdisp
    obtain ⟨rfl, rfl⟩ := h
    exact .of_nil rfl rfl hdisp (by omega)
  | pushByte | pushShort =>
    simp only [hop, Reading.bind_eq_ok, Reading.map_eq_ok, Reading.pure_eq_ok,
      Prod.mk.injEq] at h hdisp
    obtain ⟨_, _, ⟨_, hword, -⟩, rfl, rfl⟩ := h
    obtain ⟨-, -, rfl⟩ := word_ok hword
    exact .of_nil rfl rfl hdisp (by omega)
  | constantNarrow =>
    simp only [hop, Reading.bind_eq_ok, Reading.lift_eq_ok, Reading.pure_eq_ok,
      Prod.mk.injEq] at h hdisp
    obtain ⟨_, _, hbyte, _, _, ⟨-, rfl⟩, rfl, rfl⟩ := h
    obtain ⟨-, -, rfl⟩ := byte_ok hbyte
    exact .of_nil rfl rfl hdisp (by omega)
  | constantWide | field | method | type =>
    simp only [hop, Reading.bind_eq_ok, Reading.lift_eq_ok, Reading.pure_eq_ok,
      Prod.mk.injEq] at h hdisp
    obtain ⟨_, _, hshort, _, _, ⟨-, rfl⟩, rfl, rfl⟩ := h
    obtain ⟨-, rfl⟩ := short_ok hshort
    exact .of_nil rfl rfl hdisp (by omega)
  | interfaceMethod | dynamicCall =>
    simp only [hop, Reading.bind_eq_ok, Reading.lift_eq_ok, Reading.pure_eq_ok,
      Prod.mk.injEq] at h hdisp
    obtain ⟨_, _, hshort, _, _, hignored, _, _, ⟨-, rfl⟩, rfl, rfl⟩ := h
    obtain ⟨-, rfl⟩ := short_ok hshort
    obtain ⟨-, rfl⟩ := short_ok hignored
    exact .of_nil rfl rfl hdisp (by omega)
  | localIndex =>
    simp only [hop, Reading.bind_eq_ok, Reading.pure_eq_ok, Prod.mk.injEq] at h hdisp
    obtain ⟨_, _, hbyte, rfl, rfl⟩ := h
    obtain ⟨-, -, rfl⟩ := byte_ok hbyte
    exact .of_nil rfl rfl hdisp (by omega)
  | increment =>
    simp only [hop, Reading.bind_eq_ok, Reading.map_eq_ok, Reading.pure_eq_ok,
      Prod.mk.injEq] at h hdisp
    obtain ⟨_, _, hbyte, _, _, ⟨_, hword, -⟩, rfl, rfl⟩ := h
    obtain ⟨-, -, rfl⟩ := byte_ok hbyte
    obtain ⟨-, -, rfl⟩ := word_ok hword
    exact .of_nil rfl rfl hdisp (by omega)
  | branch =>
    simp only [hop, Reading.map_eq_ok] at h hdisp
    obtain ⟨t, hread, rfl⟩ := h
    obtain ⟨ht, rfl⟩ := branch_ok hread
    exact ⟨rfl, by rw [hdisp, List.map_singleton, ← ht]; rfl, _, by omega, rfl⟩
  | branchWide =>
    simp only [hop, Reading.map_eq_ok] at h hdisp
    obtain ⟨t, hread, rfl⟩ := h
    obtain ⟨ht, rfl⟩ := branchWide_ok hread
    exact ⟨rfl, by rw [hdisp, List.map_singleton, ← ht]; rfl, _, by omega, rfl⟩
  | tableSwitch =>
    simp only [hop] at h hdisp
    obtain ⟨default, low, targets, rfl, hd, hts, rfl⟩ := tableSwitch_ok h
    refine ⟨rfl, ?_, _, by unfold alignUp; omega, rfl⟩
    rw [hdisp, List.map_cons, List.map_map, ← hd, Instruction.places, List.map_cons, hts]
    rfl
  | lookupSwitch =>
    simp only [hop] at h hdisp
    obtain ⟨default, pairs, rfl, hd, hts, rfl⟩ := lookupSwitch_ok h
    refine ⟨rfl, ?_, _, by unfold alignUp; omega, rfl⟩
    rw [hdisp, List.map_cons, List.map_map, ← hd, Instruction.places, List.map_cons, hts]
    rfl
  | newArray =>
    simp only [hop, Reading.bind_eq_ok] at h hdisp
    obtain ⟨c, _, hbyte, h⟩ := h
    obtain ⟨-, -, rfl⟩ := byte_ok hbyte
    cases hc : BaseType.ofArrayCode? c with
    | none => simp [hc] at h
    | some element =>
      simp only [hc, Reading.pure_eq_ok, Prod.mk.injEq] at h
      obtain ⟨rfl, rfl⟩ := h
      exact .of_nil rfl rfl hdisp (by omega)
  | multiArray =>
    simp only [hop, Reading.bind_eq_ok, Reading.lift_eq_ok, Reading.pure_eq_ok,
      Prod.mk.injEq] at h hdisp
    obtain ⟨_, _, hshort, _, _, ⟨-, rfl⟩, _, _, hbyte, rfl, rfl⟩ := h
    obtain ⟨-, rfl⟩ := short_ok hshort
    obtain ⟨-, -, rfl⟩ := byte_ok hbyte
    exact .of_nil rfl rfl hdisp (by omega)
  | wide =>
    simp only [hop] at h hdisp
    obtain ⟨hreal, hplaces, q, hq, rfl⟩ := wide_ok h
    exact .of_nil hreal hplaces hdisp (by omega)

/-- **Displacements lead to places**: what is read at the start of an instruction has
exactly the places that its bytes name. -/
theorem instruction_ok {o : Nat} {i : Instruction Nat} (hstart : site.start = o)
    (h : site.instruction (cursorAt code o) = .ok (i, next)) :
    o < code.length ∧ ReadAt code o i next := by
  simp only [instruction, Reading.bind_eq_ok] at h
  obtain ⟨opcode, _, hbyte, h⟩ := h
  obtain ⟨ho, rfl, rfl⟩ := byte_ok hbyte
  exact ⟨ho, operands_ok hstart h⟩

end Site

end Bytecode

end Classdesk
