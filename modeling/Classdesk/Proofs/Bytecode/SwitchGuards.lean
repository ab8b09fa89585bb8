import Classdesk.Proofs.Bytecode.Encoding

/-!
# The guards of switches refuse nothing valid

A switch says how many entries it has before the first of them. The decoder compares
this number with the length of the code and gives up at once if it is greater, so that
a few broken bytes cannot ask for billions of entries. The guard compares entries with
bytes, and with all bytes of the code instead of those that are left. Here the same
readers stand without their guards. The main result is

> `switchGuards_refuse_nothing_valid`: at every offset of every code, reading with and
> without the guards succeeds on the same bytes, with the same instruction, and stops at
> the same place.

Where the guards are not passed, the entries do not fit behind the header, and reading
them one by one fails as well; only the fault can be another one. `EarlyFault` is this
relation between two outcomes. It goes through everything in front of the guards.
-/

namespace Classdesk.Bytecode

/-! ## Early faults -/

/-- What a check in front of some steps may change about their outcome: nothing, or the
fault where they fail anyway. -/
def EarlyFault {ε α : Type} (fault : ε) (early late : Except ε α) : Prop :=
  early = late ∨ (early = .error fault ∧ ∃ other, late = .error other)

namespace EarlyFault

variable {σ ε α β : Type} {fault : ε} {s : σ}

/-- Without a guard nothing is reported early. -/
theorem refl (outcome : Except ε α) : EarlyFault fault outcome outcome := .inl rfl

/-- The successes are the same. -/
theorem eq_ok_iff {early late : Except ε α} (h : EarlyFault fault early late) (a : α) :
    early = .ok a ↔ late = .ok a := by
  obtain rfl | ⟨rfl, other, rfl⟩ := h
  · exact Iff.rfl
  · constructor <;> intro hok <;> cases hok

/-- Where the outcomes differ, the check was not passed. -/
theorem eq_error_of_ne {early late : Except ε α} (h : EarlyFault fault early late)
    (hne : early ≠ late) : early = .error fault := by
  obtain heq | ⟨hearly, -⟩ := h
  · exact absurd heq hne
  · exact hearly

/-- Steps that both sides take first. -/
theorem bind {x : StateT σ (Except ε) α} {f g : α → StateT σ (Except ε) β}
    (h : ∀ a s', x s = .ok (a, s') → EarlyFault fault (f a s') (g a s')) :
    EarlyFault fault ((x >>= f) s) ((x >>= g) s) := by
  rw [Reading.bind_run, Reading.bind_run]
  cases hx : x s with
  | error e => exact refl _
  | ok r => exact h r.1 r.2 hx

/-- A check that both sides make. -/
theorem refuse {p : Prop} [Decidable p] {e : ε} {k k' : β → StateT σ (Except ε) α}
    {x y : StateT σ (Except ε) α} (h : ¬ p → EarlyFault fault (x s) (y s)) :
    EarlyFault fault ((if p then throw e >>= k else x) s)
      ((if p then throw e >>= k' else y) s) := by
  by_cases hp : p
  · rw [if_pos hp, if_pos hp]
    exact refl (.error e)
  · rw [if_neg hp, if_neg hp]
    exact h hp

/-- A check that only one side makes, in front of steps that succeed only if it is passed. -/
theorem guard {p : Prop} [Decidable p] {k : β → StateT σ (Except ε) α}
    {x : StateT σ (Except ε) α} (h : ∀ r, x s = .ok r → ¬ p) :
    EarlyFault fault ((if p then throw fault >>= k else x) s) (x s) := by
  by_cases hp : p
  · rw [if_pos hp]
    cases hx : x s with
    | error e => exact .inr ⟨rfl, e, rfl⟩
    | ok r => exact absurd hp (h r hx)
  · rw [if_neg hp]
    exact refl _

end EarlyFault

namespace Site

/-! ## Readers without guards -/

section Unguarded

variable (site : Site)

/-- Read the operands of a table switch, target after target. -/
def tableSwitchUnguarded : CodeReader (Instruction Nat) := do
  site.align
  let default ← site.branchWide
  let low ← site.signedInt
  let high ← site.signedInt
  if high.toInt < low.toInt then throw (.invalidOperand site.start 0xAA)
  let targets ← site.branches (entryCount low high).toNat
  pure (.tableSwitch default low targets)

/-- Read the operands of a lookup switch, pair after pair. -/
def lookupSwitchUnguarded : CodeReader (Instruction Nat) := do
  site.align
  let default ← site.branchWide
  let count ← site.signedInt
  if count.toInt < 0 then throw (.invalidOperand site.start 0xAB)
  let pairs ← site.cases count.toInt.toNat
  pure (.lookupSwitch default pairs)

/-- Read the operands behind an opcode; only switches have guards. -/
def operandsUnguarded (opcode : UInt8) : CodeReader (Instruction Nat) :=
  match Opcode.operands opcode with
  | .tableSwitch => site.tableSwitchUnguarded
  | .lookupSwitch => site.lookupSwitchUnguarded
  | _ => site.operands opcode

/-- Read one instruction. -/
def instructionUnguarded : CodeReader (Instruction Nat) := do
  let opcode ← site.byte
  site.operandsUnguarded opcode

end Unguarded

variable {site : Site} {code : Bytes} {p : Nat} {next : Cursor}

/-! ## Entries fit into the code -/

private theorem length_le_of_drop_eq {front rest : Bytes} (h : code.drop p = front ++ rest) :
    front.length ≤ code.length - p := by
  have hlength := congrArg List.length h
  rw [List.length_drop, List.length_append] at hlength
  omega

/-- A target takes four bytes, and those that were read stand behind `p`. -/
theorem branches_fit {n : Nat} {targets : List Nat}
    (h : site.branches n (cursorAt code p) = .ok (targets, next)) : 4 * n ≤ code.length - p := by
  obtain ⟨distances, hcount, -, rest, hbytes, -⟩ := branches_eq_ok.mp h
  rw [← hcount, ← length_flatMap_signedIntBytes]
  exact length_le_of_drop_eq hbytes

/-- A pair takes eight bytes, and those that were read stand behind `p`. -/
theorem cases_fit {n : Nat} {pairs : List (Int32 × Nat)}
    (h : site.cases n (cursorAt code p) = .ok (pairs, next)) : 8 * n ≤ code.length - p := by
  obtain ⟨rows, hcount, -, rest, hbytes, -⟩ := cases_eq_ok.mp h
  rw [← hcount, ← length_flatMap_rowBytes]
  exact length_le_of_drop_eq hbytes

/-! ## With and without the guards -/

/-- The guard of a table switch only ever reports early what is truncated anyway. -/
private theorem tableSwitch_earlyFault (hlength : site.codeLength = code.length) :
    EarlyFault (.truncatedCode site.start) (site.tableSwitch (cursorAt code p))
      (site.tableSwitchUnguarded (cursorAt code p)) := by
  unfold tableSwitch tableSwitchUnguarded
  -- The header is read in the same way, and its readers only move the cursor on.
  refine .bind fun _ _ halign => ?_
  obtain rfl := align_ok halign
  refine .bind fun default _ hdefault => ?_
  obtain ⟨-, rfl⟩ := branchWide_ok hdefault
  refine .bind fun low _ hlow => ?_
  obtain ⟨-, rfl⟩ := signedInt_ok hlow
  refine .bind fun high _ hhigh => ?_
  obtain ⟨-, rfl⟩ := signedInt_ok hhigh
  refine .refuse fun _ => .guard fun r hread => ?_
  obtain ⟨targets, _, htargets, -⟩ := Reading.bind_eq_ok.mp hread
  have hfit := branches_fit htargets
  omega

/-- The guard of a lookup switch only ever reports early what is truncated anyway. -/
private theorem lookupSwitch_earlyFault (hlength : site.codeLength = code.length) :
    EarlyFault (.truncatedCode site.start) (site.lookupSwitch (cursorAt code p))
      (site.lookupSwitchUnguarded (cursorAt code p)) := by
  unfold lookupSwitch lookupSwitchUnguarded
  refine .bind fun _ _ halign => ?_
  obtain rfl := align_ok halign
  refine .bind fun default _ hdefault => ?_
  obtain ⟨-, rfl⟩ := branchWide_ok hdefault
  refine .bind fun count _ hcount => ?_
  obtain ⟨-, rfl⟩ := signedInt_ok hcount
  refine .refuse fun _ => .guard fun r hread => ?_
  obtain ⟨pairs, _, hpairs, -⟩ := Reading.bind_eq_ok.mp hread
  have hfit := cases_fit hpairs
  omega

/-- Only the operands of switches are guarded. -/
private theorem operands_earlyFault (hlength : site.codeLength = code.length) (opcode : UInt8) :
    EarlyFault (.truncatedCode site.start) (site.operands opcode (cursorAt code p))
      (site.operandsUnguarded opcode (cursorAt code p)) := by
  cases hop : Opcode.operands opcode with
  | tableSwitch =>
    simp only [operands, operandsUnguarded, hop]
    exact tableSwitch_earlyFault hlength
  | lookupSwitch =>
    simp only [operands, operandsUnguarded, hop]
    exact lookupSwitch_earlyFault hlength
  | _ =>
    simp only [operandsUnguarded, hop]
    exact .refl _

/-- A whole instruction, with and without the guards. -/
theorem instruction_earlyFault (hlength : site.codeLength = code.length) :
    EarlyFault (.truncatedCode site.start) (site.instruction (cursorAt code p))
      (site.instructionUnguarded (cursorAt code p)) := by
  unfold instruction instructionUnguarded
  refine .bind fun opcode _ hbyte => ?_
  obtain ⟨-, -, rfl⟩ := byte_ok hbyte
  exact operands_earlyFault hlength opcode

end Site

/-- At every offset the guards change nothing about what is read: the successes are those
without guards, and where the outcomes differ, both are faults and the guards reported that
the code is too short. The number of targets that they compare is exact for all bounds. -/
theorem switchGuards_refuse_nothing_valid (code : Bytes) (pool : Pool) (o : Nat) :
    let site : Site := ⟨o, code.length, pool⟩
    (∀ i next, site.instruction (cursorAt code o) = .ok (i, next)
        ↔ site.instructionUnguarded (cursorAt code o) = .ok (i, next))
      ∧ (site.instruction (cursorAt code o) ≠ site.instructionUnguarded (cursorAt code o) →
        site.instruction (cursorAt code o) = .error (.truncatedCode o))
      ∧ ∀ low high : Int32, low.toInt ≤ high.toInt →
        ((Site.entryCount low high).toNat : Int) = high.toInt - low.toInt + 1 := by
  intro site
  have hearly : EarlyFault (.truncatedCode o) (site.instruction (cursorAt code o))
      (site.instructionUnguarded (cursorAt code o)) := Site.instruction_earlyFault rfl
  refine ⟨fun i next => hearly.eq_ok_iff (i, next), hearly.eq_error_of_ne, ?_⟩
  intro low high hbounds
  exact Site.toNat_entryCount hbounds

/-- A lookup switch whose only pair ends with the code. -/
def lonePair : Bytes := [0xAB, 0, 0, 0, 0, 0, 0, 0, 0, 0, 0, 1, 0, 0, 0, 5, 0, 0, 0, 0]

/-- A table switch from the least to the greatest bound. Of its targets only the first one
is there, and this one leads outside the code. -/
def farBounds : Bytes :=
  [0xAA, 0, 0, 0, 0, 0, 0, 0, 0x80, 0, 0, 0, 0x7F, 0xFF, 0xFF, 0xFF, 0, 0, 0, 99]

/-- The pair is read without its guard too. The far bounds are truncated with the guard, and have a
bad jump without it. -/
theorem farBounds_fault_early :
    Site.instructionUnguarded ⟨0, 20, .empty⟩ (cursorAt lonePair 0)
        = .ok (.lookupSwitch 0 [(5, 0)], cursorAt lonePair 20)
      ∧ Site.instructionUnguarded ⟨0, 20, .empty⟩ (cursorAt farBounds 0)
        = .error (.invalidJump 0 99)
      ∧ Site.instruction ⟨0, 20, .empty⟩ (cursorAt farBounds 0) = .error (.truncatedCode 0)
      ∧ Int32.minValue.toInt ≤ Int32.maxValue.toInt
      ∧ ((Site.entryCount Int32.minValue Int32.maxValue).toNat : Int) = 2 ^ 32 := by
  obtain ⟨hsame, -, hexact⟩ := switchGuards_refuse_nothing_valid lonePair .empty 0
  obtain ⟨-, hearly, -⟩ := switchGuards_refuse_nothing_valid farBounds .empty 0
  have hread : Site.instruction ⟨0, 20, .empty⟩ (cursorAt lonePair 0)
      = .ok (.lookupSwitch 0 [(5, 0)], cursorAt lonePair 20) := by rfl
  have hlate : Site.instructionUnguarded ⟨0, 20, .empty⟩ (cursorAt farBounds 0)
      = .error (.invalidJump 0 99) := by rfl
  have hbounds : Int32.minValue.toInt ≤ Int32.maxValue.toInt := by decide
  refine ⟨(hsame _ _).mp hread, hlate, hearly ?_, hbounds, hexact _ _ hbounds⟩
  show Except.error (ClassFault.truncatedCode 0) ≠ Except.error (ClassFault.invalidJump 0 99)
  simp

end Classdesk.Bytecode
