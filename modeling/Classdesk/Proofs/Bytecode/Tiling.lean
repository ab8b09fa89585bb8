import Classdesk.Proofs.Bytecode.Encoding
import Classdesk.Proofs.Bytecode.Labels
import Mathlib.Data.List.Forall2

/-!
# The first pass reads every byte once

Code is well-formed if it is a row of encodings, the first one at offset 0, each of the
others where the one before it ends, and the last one ending with the code. `Tiled` says
this of some code and the instructions with their offsets. The main result is

> `layout_iff_tiled`: the first pass gives some instructions with their offsets exactly
> if the code is tiled by them. Their offsets increase, and they lead to no place
> outside of the code.

One instruction is `Site.instruction_eq_ok`; the loop adds that its fuel never runs out,
because no encoding is empty.
-/

namespace Classdesk.Bytecode

/-- The code from an offset on is a row of encodings of these instructions. -/
inductive Tiled (codeLength : Nat) (pool : Pool) :
    Nat → List (Nat × Instruction Nat) → Bytes → Prop
  | done (o : Nat) : Tiled codeLength pool o [] []
  | next {o : Nat} {i : Instruction Nat} {front rest : Bytes}
      {others : List (Nat × Instruction Nat)}
      (henc : Site.Encodes ⟨o, codeLength, pool⟩ i front)
      (hothers : Tiled codeLength pool (o + front.length) others rest) :
      Tiled codeLength pool o ((o, i) :: others) (front ++ rest)

/-- Every encoding has an opcode. -/
theorem Site.Encodes.length_pos {site : Site} {i : Instruction Nat} {front : Bytes}
    (h : site.Encodes i front) : 0 < front.length := by
  cases h <;> exact Nat.succ_pos _

/-- Jumps and switches lead to places inside the code. -/
theorem Site.Encodes.places_lt {site : Site} {i : Instruction Nat} {front : Bytes}
    (h : site.Encodes i front) : ∀ t ∈ i.places, t < site.codeLength := by
  intro t ht
  cases h with
  | branch hop htarget | branchWide hop htarget =>
    obtain rfl := List.mem_singleton.mp ht
    exact htarget.2
  | tableSwitch hpadding haligned hdefault hbounds hcount htargets =>
    rcases List.mem_cons.mp ht with rfl | ht
    · exact hdefault.2
    · have hinside := htargets.flip.imp fun _ _ hreach => And.symm hreach
      exact ((List.forall₂_and_left _ _).mp hinside).1 t ht
  | lookupSwitch hpadding haligned hdefault hcount hpairs =>
    rcases List.mem_cons.mp ht with rfl | ht
    · exact hdefault.2
    · obtain ⟨pair, hpair, rfl⟩ := List.mem_map.mp ht
      have hinside := hpairs.flip.imp fun _ _ hrow => And.symm hrow.2
      exact ((List.forall₂_and_left _ _).mp hinside).1 pair hpair
  | _ => cases ht

variable {codeLength : Nat} {pool : Pool} {o : Nat} {decoded : List (Nat × Instruction Nat)}

/-- Nothing is left exactly where there are no more instructions. -/
theorem tiled_nil_iff : Tiled codeLength pool o decoded [] ↔ decoded = [] := by
  constructor
  · intro h
    generalize hbs : ([] : Bytes) = bs at h
    cases h with
    | done => rfl
    | next henc _ =>
      have hpos := henc.length_pos
      rw [(List.append_eq_nil_iff.mp hbs.symm).1] at hpos
      cases hpos
  · rintro rfl
    exact .done o

/-- Each instruction of a tiling is spelled by the bytes it covers. -/
private theorem Tiled.encodes {bs : Bytes} (h : Tiled codeLength pool o decoded bs) :
    ∀ d ∈ decoded, ∃ front, Site.Encodes ⟨d.1, codeLength, pool⟩ d.2 front := by
  induction h with
  | done => exact fun d hd => absurd hd List.not_mem_nil
  | next henc _ ih =>
    intro d hd
    rcases List.mem_cons.mp hd with rfl | hd
    · exact ⟨_, henc⟩
    · exact ih d hd

/-- The loop, from any offset: with a round for each byte it reads exactly the tilings. -/
theorem readAll_eq_ok {fuel : Nat} {bs : Bytes} (hfuel : bs.length ≤ fuel)
    (hroom : o + bs.length = codeLength) :
    readAll codeLength pool fuel ⟨o, bs⟩ = .ok decoded ↔ Tiled codeLength pool o decoded bs := by
  -- One unit of fuel for each byte is enough, because no encoding is empty.
  induction fuel generalizing o bs decoded with
  | zero =>
    obtain rfl := List.length_eq_zero_iff.mp (Nat.le_zero.mp hfuel)
    rw [readAll, tiled_nil_iff, Except.ok.injEq, eq_comm]
  | succ fuel ih =>
    unfold readAll
    cases bs with
    | nil =>
      rw [tiled_nil_iff, if_pos List.isEmpty_nil, Except.ok.injEq, eq_comm]
    | cons b bs =>
      rw [if_neg (by simp)]
      simp only [Reading.except_bind_eq_ok, Prod.exists, Except.ok.injEq]
      constructor
      · rintro ⟨i, next, hread, others, hothers, rfl⟩
        obtain ⟨front, rest, henc, hbs, rfl⟩ := (Site.instruction_eq_ok hroom).mp hread
        have hpos := henc.length_pos
        have hlen := congrArg List.length hbs
        rw [List.length_append] at hlen
        rw [hbs]
        exact .next henc ((ih (by omega) (by omega)).mp hothers)
      · intro h
        generalize hall : b :: bs = all at h hroom hfuel
        cases h with
        | done => cases hall
        | @next _ i front rest others henc hothers =>
          have hpos := henc.length_pos
          have hread : Site.instruction ⟨o, codeLength, pool⟩ ⟨o, front ++ rest⟩
              = .ok (i, ⟨o + front.length, rest⟩) :=
            (Site.instruction_eq_ok hroom).mpr ⟨front, rest, henc, rfl, rfl⟩
          rw [List.length_append] at hroom hfuel
          exact ⟨i, _, hread, others, (ih (by omega) (by omega)).mpr hothers, rfl⟩

/-- The first pass accepts exactly the tilings of the code. In a tiling the offsets
increase, and what stands at an offset takes bytes and leads inside the code. -/
theorem layout_iff_tiled (code : Bytes) (pool : Pool) (decoded : List (Nat × Instruction Nat)) :
    (layout code pool = .ok decoded ↔ Tiled code.length pool 0 decoded code)
      ∧ (Tiled code.length pool 0 decoded code →
        (decoded.map Prod.fst).Pairwise (· < ·)
          ∧ ∀ d ∈ decoded, d.1 < code.length ∧ d.2.isReal = true
            ∧ ∀ t ∈ d.2.places, t < code.length) := by
  have hiff : layout code pool = .ok decoded ↔ Tiled code.length pool 0 decoded code :=
    readAll_eq_ok (Nat.le_refl _) (Nat.zero_add _)
  refine ⟨hiff, fun htiled => ?_⟩
  obtain ⟨hsorted, hall⟩ := layout_ok (hiff.mpr htiled)
  refine ⟨hsorted, fun d hd => ?_⟩
  obtain ⟨hinside, next, hread⟩ := hall d hd
  obtain ⟨front, henc⟩ := htiled.encodes d hd
  exact ⟨hinside, hread.real, henc.places_lt⟩

/-- A table switch behind one byte, so with two bytes of padding, and its two targets. -/
def switchCode : Bytes :=
  [0x1A, 0xAA, 0x07, 0x09, 0, 0, 0, 23, 0, 0, 0, 1, 0, 0, 0, 2, 0, 0, 0, 23, 0, 0, 0, 24,
    0xB1, 0xB1]

/-- Four instructions, the second a table switch with two bytes of padding. -/
theorem switchCode_tiled :
    Tiled 26 .empty 0
        [(0, .simple 0x1A), (1, .tableSwitch 24 1 [24, 25]), (24, .simple 0xB1), (25, .simple 0xB1)]
        switchCode
      ∧ [0, 1, 24, 25].Pairwise (· < ·) := by
  have hread : layout switchCode .empty = .ok [(0, .simple 0x1A), (1, .tableSwitch 24 1 [24, 25]),
      (24, .simple 0xB1), (25, .simple 0xB1)] := by rfl
  obtain ⟨hiff, hfacts⟩ := layout_iff_tiled switchCode .empty _
  exact ⟨hiff.mp hread, (hfacts (hiff.mp hread)).1⟩

end Classdesk.Bytecode
