import Classdesk.Proofs.Bytecode.Operands
import Mathlib.Data.Finset.Card
import Mathlib.Data.List.Nodup

/-!
# Labels keep every control-flow target

Decoding turns distances between instructions into labels in two passes: the first
keeps byte offsets as places, the second numbers them. The main result,
`decode_preserves_targets`, says that nothing gets lost on the way. With `T` the set
of all absolute targets, taken from the bytes of the code and the handlers:

* the labels of the listing are `L0`, `L1`, … in this order, one for each target,
* the label of a target stands in front of the lines and the instruction there, or
  at the very end,
* every operand that was the displacement `d` of an instruction at `o` is the label
  of `o + d`, and different targets have different labels,
* without labels and lines the listing is what the first pass read.

The number of a target is defined here by counting the smaller ones, without the
list that the second pass searches.
-/

namespace Classdesk

namespace Instruction

variable {τ σ : Type}

/-- The place that an instruction marks, if it is a label. -/
def label? : Instruction τ → Option τ
  | .label place => some place
  | _ => none

private theorem isReal_mapPlaces (f : τ → σ) (i : Instruction τ) :
    (i.mapPlaces f).isReal = i.isReal := by
  cases i <;> rfl

private theorem label?_eq_none {i : Instruction τ} (h : i.isReal = true) : i.label? = none := by
  cases i with
  | label place => cases h
  | _ => rfl

/-- Only what happens to the places of an instruction matters. -/
theorem mapPlaces_congr {f g : τ → σ} {i : Instruction τ} (h : ∀ p ∈ i.places, f p = g p) :
    i.mapPlaces f = i.mapPlaces g := by
  cases i with
  | label place => simp [mapPlaces, h place (by simp [places])]
  | jump opcode target => simp [mapPlaces, h target (by simp [places])]
  | tableSwitch default low targets =>
    have hrest : targets.map f = targets.map g :=
      List.map_congr_left fun t ht => h t (by simp [places, ht])
    simp [mapPlaces, h default (by simp [places]), hrest]
  | lookupSwitch default pairs =>
    have hpairs : ∀ pair ∈ pairs, f pair.2 = g pair.2 := fun pair hpair =>
      h pair.2 (List.mem_cons_of_mem _ (List.mem_map_of_mem hpair))
    simp only [mapPlaces, h default (by simp [places]), lookupSwitch.injEq, true_and]
    exact List.map_congr_left fun pair hpair => congrArg (pair.1, ·) (hpairs pair hpair)
  | _ => rfl

end Instruction

namespace Bytecode

/-! ## Targets and their numbers -/

/-- The absolute targets of some code whose instructions start at `offsets`: those of
jumps and switches, and the three places of every handler. -/
def targets (code : Code) (offsets : List Nat) : Finset Int :=
  (offsets.flatMap (fun o => (displacements code.code o).map fun d => (o : Int) + d)
    ++ code.handlers.flatMap (fun h =>
      [(h.start.toNat : Int), (h.stop.toNat : Int), (h.target.toNat : Int)])).toFinset

/-- The label of a target. Targets are numbered from the smallest one on. -/
def labelOf (T : Finset Int) (t : Int) : Label := ⟨(T.filter (· < t)).card⟩

/-- In an increasing list the position of an element counts the smaller ones. -/
theorem idxOf_eq_countP_lt {l : List Nat} {x : Nat} (h : l.Pairwise (· < ·)) (hx : x ∈ l) :
    l.idxOf x = l.countP (· < x) := by
  induction l with
  | nil => cases hx
  | cons y ys ih =>
    obtain ⟨hy, hys⟩ := List.pairwise_cons.mp h
    rcases List.mem_cons.mp hx with rfl | hxs
    · have hzero : ys.countP (· < x) = 0 := by
        rw [List.countP_eq_zero]
        intro z hz
        have := hy z hz
        simp only [decide_eq_true_eq]
        omega
      rw [List.idxOf_cons_self, List.countP_cons, hzero]
      simp
    · have hlt : y < x := hy x hxs
      rw [List.idxOf_cons_ne _ (by omega), ih hys hxs, List.countP_cons]
      simp [hlt]

/-- Where the targets are the elements of an increasing list, their labels are the
positions there. -/
theorem labelOf_eq_idxOf {T : Finset Int} {places : List Nat}
    (hsorted : places.Pairwise (· < ·)) (hT : T = (places.map Int.ofNat).toFinset) {x : Nat}
    (hx : x ∈ places) : labelOf T x = ⟨places.idxOf x⟩ := by
  have hnodup : (places.map Int.ofNat).Nodup :=
    (List.nodup_map_iff fun _ _ h => Int.ofNat.inj h).mpr (hsorted.imp Nat.ne_of_lt)
  have hbelow : T.filter (· < (x : Int))
      = ((places.map Int.ofNat).filter (· < (x : Int))).toFinset := by
    ext t
    simp [hT]
  rw [labelOf, hbelow, List.toFinset_card_of_nodup (hnodup.filter _),
    ← List.countP_eq_length_filter, List.countP_map, idxOf_eq_countP_lt hsorted hx]
  congr 1
  refine List.countP_congr fun y _ => ?_
  simp

/-- The labels of increasing places are the numbers from zero on. -/
private theorem map_labelOf {T : Finset Int} {places : List Nat}
    (hsorted : places.Pairwise (· < ·)) (hT : T = (places.map Int.ofNat).toFinset) :
    places.map (fun x : Nat => labelOf T x) = (List.range T.card).map Label.mk := by
  have hnodup : places.Nodup := hsorted.imp Nat.ne_of_lt
  have hcard : T.card = places.length := by
    rw [hT, List.toFinset_card_of_nodup
      ((List.nodup_map_iff fun _ _ h => Int.ofNat.inj h).mpr hnodup), List.length_map]
  rw [hcard]
  refine List.ext_getElem (by simp) fun k hk _ => ?_
  rw [List.length_map] at hk
  rw [List.getElem_map, List.getElem_map, List.getElem_range,
    labelOf_eq_idxOf hsorted hT (List.getElem_mem hk), hnodup.idxOf_getElem k hk]

/-! ## The first pass -/

/-- Instructions are read one behind the other, each where its offset says. -/
theorem readAll_ok {code : Bytes} {codeLength : Nat} {pool : Pool} :
    ∀ (fuel : Nat) {p : Nat} {decoded : List (Nat × Instruction Nat)},
      readAll codeLength pool fuel (cursorAt code p) = .ok decoded →
      (decoded.map Prod.fst).Pairwise (· < ·)
        ∧ ∀ d ∈ decoded, p ≤ d.1 ∧ d.1 < code.length
          ∧ ∃ next, Site.ReadAt code d.1 d.2 next := by
  intro fuel
  -- What is read later starts at `p` or behind it, so offsets increase.
  induction fuel with
  | zero =>
    intro p decoded h
    cases h
    exact ⟨.nil, fun d hd => by cases hd⟩
  | succ fuel ih =>
    intro p decoded h
    rw [readAll] at h
    by_cases hend : (cursorAt code p).rest.isEmpty = true
    · rw [if_pos hend] at h
      cases h
      exact ⟨.nil, fun d hd => by cases hd⟩
    · rw [if_neg hend] at h
      simp only [Reading.except_bind_eq_ok, Except.ok.injEq] at h
      obtain ⟨⟨i, next⟩, hread, others, hothers, rfl⟩ := h
      obtain ⟨hp, hat⟩ := Site.instruction_ok (o := p) rfl hread
      obtain ⟨q, hq, rfl⟩ := hat.advances
      obtain ⟨hsorted, hall⟩ := ih hothers
      refine ⟨?_, fun d hd => ?_⟩
      · rw [List.map_cons, List.pairwise_cons]
        refine ⟨fun o ho => ?_, hsorted⟩
        obtain ⟨d, hd, rfl⟩ := List.mem_map.mp ho
        have hqd := (hall d hd).1
        show p < d.1
        omega
      · rcases List.mem_cons.mp hd with rfl | hd'
        · exact ⟨Nat.le_refl _, hp, _, hat⟩
        · obtain ⟨hqd, hlt, hat'⟩ := hall d hd'
          exact ⟨by omega, hlt, hat'⟩

/-- The first pass lists instructions by increasing offsets inside the code. -/
theorem layout_ok {code : Bytes} {pool : Pool} {decoded : List (Nat × Instruction Nat)}
    (h : layout code pool = .ok decoded) :
    (decoded.map Prod.fst).Pairwise (· < ·)
      ∧ ∀ d ∈ decoded, d.1 < code.length ∧ ∃ next, Site.ReadAt code d.1 d.2 next := by
  obtain ⟨hsorted, hall⟩ := readAll_ok (p := 0) _ h
  exact ⟨hsorted, fun d hd => (hall d hd).2⟩

/-! ## The second pass -/

/-- Where the check of jumps passes, each leads to a start. -/
theorem checkJumps_ok {starts : List Nat} :
    ∀ {jumps : List (Nat × Nat)} {u : Unit}, checkJumps starts jumps = .ok u →
      ∀ j ∈ jumps, j.2 ∈ starts
  | [], _, _, _, hj => by cases hj
  | (offset, target) :: jumps, u, h, j, hj => by
    rw [checkJumps] at h
    by_cases hin : starts.contains target = true
    · rw [if_pos hin] at h
      rcases List.mem_cons.mp hj with rfl | hj'
      · exact List.contains_iff_mem.mp hin
      · exact checkJumps_ok h j hj'
    · rw [if_neg hin] at h
      cases h

/-- The line numbers at an offset, in the order of the table. -/
def linesAt (lines : List LineEntry) (o : Nat) : List (Instruction Label) :=
  (lines.filter (·.start.toNat == o)).map fun e => .lineNumber e.line

/-- An instruction of the first pass with the labels of its targets. -/
def relabel (T : Finset Int) (i : Instruction Nat) : Instruction Label :=
  i.mapPlaces fun p : Nat => labelOf T p

/-- The label in front of a place, if it is a target. -/
def markAt (T : Finset Int) (o : Nat) : List (Instruction Label) :=
  if (o : Int) ∈ T then [.label (labelOf T o)] else []

/-- What stands for an instruction of the first pass in the listing. -/
def block (T : Finset Int) (lines : List LineEntry) (d : Nat × Instruction Nat) :
    List (Instruction Label) :=
  markAt T d.1 ++ linesAt lines d.1 ++ [relabel T d.2]

/-- The places that the first pass and the handlers name. -/
def namedPlaces (code : Code) (decoded : List (Nat × Instruction Nat)) : List Nat :=
  decoded.flatMap (fun d => d.2.places) ++ (code.handlers.flatMap handlerPlaces).map Prod.snd

/-- The named places in code order. -/
def orderedPlaces (code : Code) (decoded : List (Nat × Instruction Nat)) : List Nat :=
  (decoded.map Prod.fst ++ [code.code.length]).filter (namedPlaces code decoded).contains

/-- What decoding went through when it succeeded: the first pass, the check that all
named places are starts of instructions or the end of the code, the lines, and the
second pass over the places in code order. -/
theorem decode_ok {code : Code} {pool : Pool} {out : List (Instruction Label)}
    (h : decode code pool = .ok out) :
    ∃ decoded lines, layout code.code pool = .ok decoded
      ∧ Attribute.find LineTable pool code.attributes = .ok lines
      ∧ (∀ p ∈ namedPlaces code decoded, p ∈ decoded.map Prod.fst ++ [code.code.length])
      ∧ out = annotate (orderedPlaces code decoded) ((lines.map LineTable.entries).getD [])
          code.code.length decoded := by
  simp only [decode, Reading.except_bind_eq_ok, Except.ok.injEq] at h
  obtain ⟨decoded, hlayout, _, hjumps, _, hranges, lines, hlines, rfl⟩ := h
  refine ⟨decoded, lines, hlayout, hlines, fun p hp => ?_, ?_⟩
  · rcases List.mem_append.mp hp with hp | hp
    · obtain ⟨d, hd, hpd⟩ := List.mem_flatMap.mp hp
      have hstart := checkJumps_ok hjumps (d.1, p)
        (List.mem_flatMap.mpr ⟨d, hd, List.mem_map.mpr ⟨p, hpd, rfl⟩⟩)
      exact List.mem_append_left _ hstart
    · obtain ⟨r, hr, rfl⟩ := List.mem_map.mp hp
      exact checkJumps_ok hranges r hr
  · rw [orderedPlaces, namedPlaces, List.map_append, List.map_flatMap]
    simp only [List.map_map, Function.comp_def, List.map_id']

/-- What instructions of the first pass name is what their displacements lead to. -/
theorem targets_eq_namedPlaces {code : Code} {decoded : List (Nat × Instruction Nat)}
    (hread : ∀ d ∈ decoded, ∃ next, Site.ReadAt code.code d.1 d.2 next) :
    targets code (decoded.map Prod.fst) = ((namedPlaces code decoded).map Int.ofNat).toFinset := by
  have hjumps : (decoded.map Prod.fst).flatMap
        (fun o => (displacements code.code o).map fun d => (o : Int) + d)
      = (decoded.flatMap fun d => d.2.places).map Int.ofNat := by
    rw [List.flatMap_map, List.map_flatMap]
    refine List.flatMap_congr fun d hd => ?_
    obtain ⟨_, hat⟩ := hread d hd
    exact hat.places.symm
  have hhandlers : code.handlers.flatMap (fun h =>
        [(h.start.toNat : Int), (h.stop.toNat : Int), (h.target.toNat : Int)])
      = ((code.handlers.flatMap handlerPlaces).map Prod.snd).map Int.ofNat := by
    rw [List.map_flatMap, List.map_flatMap]
    rfl
  rw [targets, hjumps, hhandlers, namedPlaces, List.map_append]

/-- Ordering loses no place that is a start or the end of the code. -/
theorem mem_orderedPlaces {code : Code} {decoded : List (Nat × Instruction Nat)}
    (hnamed : ∀ p ∈ namedPlaces code decoded, p ∈ decoded.map Prod.fst ++ [code.code.length])
    {p : Nat} : p ∈ orderedPlaces code decoded ↔ p ∈ namedPlaces code decoded := by
  rw [orderedPlaces, List.mem_filter, List.contains_iff_mem]
  exact ⟨fun h => h.2, fun h => ⟨hnamed p h, h⟩⟩

private theorem orderedPlaces_increasing {code : Code} {decoded : List (Nat × Instruction Nat)}
    (hsorted : (decoded.map Prod.fst).Pairwise (· < ·))
    (hinside : ∀ d ∈ decoded, d.1 < code.code.length) :
    (orderedPlaces code decoded).Pairwise (· < ·) := by
  refine List.Pairwise.filter _ (List.pairwise_append.mpr ⟨hsorted, by simp, ?_⟩)
  intro o ho n hn
  obtain ⟨d, hd, rfl⟩ := List.mem_map.mp ho
  rw [List.mem_singleton.mp hn]
  exact hinside d hd

/-- The second pass writes one block for each instruction, and a label at the end if
the end is a target. -/
theorem annotate_eq_blocks {T : Finset Int} {places : List Nat} {lines : List LineEntry}
    {codeLength : Nat} {decoded : List (Nat × Instruction Nat)}
    (hsorted : places.Pairwise (· < ·)) (hT : T = (places.map Int.ofNat).toFinset)
    (hplaces : ∀ d ∈ decoded, ∀ p ∈ d.2.places, p ∈ places) :
    annotate places lines codeLength decoded
      = decoded.flatMap (block T lines) ++ markAt T codeLength := by
  have hmem : ∀ p : Nat, (p : Int) ∈ T ↔ p ∈ places := by
    intro p
    simp [hT]
  have hmark : ∀ p : Nat,
      (if places.contains p = true then [Instruction.label (⟨places.idxOf p⟩ : Label)] else [])
        = markAt T p := by
    intro p
    by_cases hp : p ∈ places
    · rw [markAt, if_pos (List.contains_iff_mem.mpr hp), if_pos ((hmem p).mpr hp),
        labelOf_eq_idxOf hsorted hT hp]
    · rw [markAt, if_neg (fun h => hp (List.contains_iff_mem.mp h)),
        if_neg (fun h => hp ((hmem p).mp h))]
  -- The search for a place never misses, so no operand keeps a bare offset.
  simp only [annotate, hmark]
  congr 1
  refine List.flatMap_congr fun d hd => ?_
  have hlabel : d.2.mapPlaces (fun p => (⟨places.idxOf p⟩ : Label)) = relabel T d.2 :=
    Instruction.mapPlaces_congr fun p hp =>
      (labelOf_eq_idxOf hsorted hT (hplaces d hd p hp)).symm
  show markAt T d.1 ++ linesAt lines d.1 ++ [d.2.mapPlaces _] = block T lines d
  rw [hlabel, block]

/-! ## Reading a listing back -/

private theorem filter_isReal_linesAt (lines : List LineEntry) (o : Nat) :
    (linesAt lines o).filter Instruction.isReal = [] := by
  rw [List.filter_eq_nil_iff]
  intro i hi
  obtain ⟨e, -, rfl⟩ := List.mem_map.mp hi
  simp [Instruction.isReal]

private theorem filterMap_label?_linesAt (lines : List LineEntry) (o : Nat) :
    (linesAt lines o).filterMap Instruction.label? = [] := by
  simp [linesAt, Instruction.label?]

private theorem filter_isReal_markAt (T : Finset Int) (o : Nat) :
    (markAt T o).filter Instruction.isReal = [] := by
  unfold markAt
  split
  next => rfl
  next => rfl

private theorem filterMap_label?_markAt (T : Finset Int) (o : Nat) :
    (markAt T o).filterMap Instruction.label?
      = if (o : Int) ∈ T then [labelOf T o] else [] := by
  unfold markAt
  split
  next => rfl
  next => rfl

/-- Each block holds one real instruction. -/
theorem filter_isReal_blocks (T : Finset Int) (lines : List LineEntry) :
    ∀ {decoded : List (Nat × Instruction Nat)}, (∀ d ∈ decoded, d.2.isReal = true) →
      (decoded.flatMap (block T lines)).filter Instruction.isReal
        = decoded.map fun d => relabel T d.2
  | [], _ => rfl
  | d :: decoded, hreal => by
    have hd : (relabel T d.2).isReal = true := by
      rw [relabel, Instruction.isReal_mapPlaces]
      exact hreal d (List.mem_cons_self ..)
    have ih := filter_isReal_blocks T lines
      fun d' hd' => hreal d' (List.mem_cons_of_mem _ hd')
    rw [List.flatMap_cons, List.filter_append, ih, block, List.filter_append,
      List.filter_append, filter_isReal_markAt, filter_isReal_linesAt]
    simp [hd]

/-- The labels of the blocks are those of the offsets that are targets. -/
theorem filterMap_label?_blocks (T : Finset Int) (lines : List LineEntry) :
    ∀ {decoded : List (Nat × Instruction Nat)}, (∀ d ∈ decoded, d.2.isReal = true) →
      (decoded.flatMap (block T lines)).filterMap Instruction.label?
        = ((decoded.map Prod.fst).filter fun o : Nat => (o : Int) ∈ T).map
            fun o : Nat => labelOf T o
  | [], _ => rfl
  | d :: decoded, hreal => by
    have hd : (relabel T d.2).label? = none := by
      refine Instruction.label?_eq_none ?_
      rw [relabel, Instruction.isReal_mapPlaces]
      exact hreal d (List.mem_cons_self ..)
    have ih := filterMap_label?_blocks T lines
      fun d' hd' => hreal d' (List.mem_cons_of_mem _ hd')
    rw [List.flatMap_cons, List.filterMap_append, ih, block, List.filterMap_append,
      List.filterMap_append, filterMap_label?_markAt, filterMap_label?_linesAt]
    by_cases hT : (d.1 : Int) ∈ T
    · simp [hd, hT]
    · simp [hd, hT]

/-- Larger targets have larger labels. -/
theorem labelOf_lt {T : Finset Int} {t u : Int} (ht : t ∈ T) (h : t < u) :
    (labelOf T t).number < (labelOf T u).number := by
  refine Finset.card_lt_card ((Finset.ssubset_iff_of_subset fun x hx => ?_).mpr ⟨t, ?_, ?_⟩)
  · rw [Finset.mem_filter] at hx ⊢
    exact ⟨hx.1, lt_trans hx.2 h⟩
  · exact Finset.mem_filter.mpr ⟨ht, h⟩
  · simp

/-- Labels of targets tell them apart. -/
theorem labelOf_injOn {T : Finset Int} {t u : Int} (ht : t ∈ T) (hu : u ∈ T)
    (h : labelOf T t = labelOf T u) : t = u := by
  rcases lt_trichotomy t u with hlt | heq | hgt
  · exact absurd (congrArg Label.number h) (labelOf_lt ht hlt).ne
  · exact heq
  · exact absurd (congrArg Label.number h) (labelOf_lt hu hgt).ne'

/-! ## The whole of decoding -/

/-- How a listing keeps the targets of the code it was decoded from. `decoded` is what
the first pass read, with offsets, and `lines` is the table of line numbers. -/
structure KeepsTargets (code : Code) (decoded : List (Nat × Instruction Nat))
    (lines : List LineEntry) (T : Finset Int) (out : List (Instruction Label)) : Prop where
  /-- The labels are numbered in code order, one for each target. -/
  numbered : out.filterMap Instruction.label? = (List.range T.card).map Label.mk
  /-- The label of a target stands in front of the lines and the instruction at that
  offset, behind the instructions before it; or at the end, for the end of the code. -/
  placed : ∀ t ∈ T,
    (∃ (before after : List (Nat × Instruction Nat)) (o : Nat) (i : Instruction Nat)
        (front back : List (Instruction Label)),
      t = o ∧ decoded = before ++ (o, i) :: after
      ∧ front.filter Instruction.isReal = before.map (fun d => relabel T d.2)
      ∧ out = front ++ .label (labelOf T t) :: (linesAt lines o ++ relabel T i :: back))
    ∨ (t = code.code.length ∧ ∃ front, out = front ++ [.label (labelOf T t)])
  /-- The operands of an instruction are the labels of the targets they were read as,
  and different targets have different labels. -/
  operands : ∀ (k o : Nat) (i : Instruction Nat), decoded[k]? = some (o, i) →
    ∃ j, (out.filter Instruction.isReal)[k]? = some j
      ∧ j.places = (displacements code.code o).map (fun d => labelOf T (o + d))
      ∧ ∀ d ∈ displacements code.code o, (o : Int) + d ∈ T
        ∧ ∀ u ∈ T, labelOf T u = labelOf T (o + d) → u = o + d
  /-- Without labels and lines, what is left is what was read. -/
  erased : out.filter Instruction.isReal = decoded.map (fun d => relabel T d.2)

section Blocks

variable {code : Code} {decoded : List (Nat × Instruction Nat)} {lines : List LineEntry}
  {T : Finset Int}

private theorem mem_targets_iff (hT : T = ((orderedPlaces code decoded).map Int.ofNat).toFinset)
    (p : Nat) : (p : Int) ∈ T ↔ p ∈ orderedPlaces code decoded := by
  simp [hT]

/-- Only real instructions are read off bytes, never labels or line numbers. -/
private theorem isReal_of_readAt
    (hread : ∀ d ∈ decoded, ∃ next, Site.ReadAt code.code d.1 d.2 next) :
    ∀ d ∈ decoded, d.2.isReal = true := by
  intro d hd
  obtain ⟨_, hat⟩ := hread d hd
  exact hat.real

/-- Reading only the blocks back gives the real instructions. -/
theorem blocks_erased (hread : ∀ d ∈ decoded, ∃ next, Site.ReadAt code.code d.1 d.2 next) :
    (decoded.flatMap (block T lines) ++ markAt T code.code.length).filter Instruction.isReal
      = decoded.map (fun d => relabel T d.2) := by
  rw [List.filter_append, filter_isReal_blocks T lines (isReal_of_readAt hread),
    filter_isReal_markAt, List.append_nil]

/-- Labels come up in the listing in the order of their numbers, each once. -/
private theorem blocks_numbered (hread : ∀ d ∈ decoded, ∃ next, Site.ReadAt code.code d.1 d.2 next)
    (hsorted : (orderedPlaces code decoded).Pairwise (· < ·))
    (hT : T = ((orderedPlaces code decoded).map Int.ofNat).toFinset) :
    (decoded.flatMap (block T lines) ++ markAt T code.code.length).filterMap Instruction.label?
      = (List.range T.card).map Label.mk := by
  -- A label stands where an offset or the end is a target, in code order.
  have hordered : orderedPlaces code decoded
      = (decoded.map Prod.fst ++ [code.code.length]).filter fun o : Nat => (o : Int) ∈ T := by
    refine List.filter_congr fun p hp => ?_
    have hiff : (namedPlaces code decoded).contains p = true ↔ (p : Int) ∈ T := by
      rw [mem_targets_iff hT, orderedPlaces, List.mem_filter]
      exact ⟨fun h => ⟨hp, h⟩, fun h => h.2⟩
    rw [Bool.eq_iff_iff, hiff, decide_eq_true_iff]
  rw [← map_labelOf hsorted hT, hordered, List.filter_append, List.map_append,
    List.filterMap_append, filterMap_label?_blocks T lines (isReal_of_readAt hread),
    filterMap_label?_markAt]
  by_cases hlen : (code.code.length : Int) ∈ T
  · simp [hlen]
  · simp [hlen]

/-- The label of a target stands right in front of the instruction there, or at the end. -/
private theorem blocks_placed (hread : ∀ d ∈ decoded, ∃ next, Site.ReadAt code.code d.1 d.2 next)
    (hT : T = ((orderedPlaces code decoded).map Int.ofNat).toFinset) {t : Int} (ht : t ∈ T) :
    (∃ (before after : List (Nat × Instruction Nat)) (o : Nat) (i : Instruction Nat)
        (front back : List (Instruction Label)),
      t = o ∧ decoded = before ++ (o, i) :: after
      ∧ front.filter Instruction.isReal = before.map (fun d => relabel T d.2)
      ∧ decoded.flatMap (block T lines) ++ markAt T code.code.length
          = front ++ .label (labelOf T t) :: (linesAt lines o ++ relabel T i :: back))
    ∨ (t = code.code.length ∧ ∃ front,
        decoded.flatMap (block T lines) ++ markAt T code.code.length
          = front ++ [.label (labelOf T t)]) := by
  obtain ⟨p, hp, rfl⟩ : ∃ p : Nat, p ∈ orderedPlaces code decoded ∧ t = p := by
    rw [hT, List.mem_toFinset, List.mem_map] at ht
    obtain ⟨p, hp, rfl⟩ := ht
    exact ⟨p, hp, rfl⟩
  -- A target is the offset of an instruction, or the end of the code.
  rcases List.mem_append.mp (List.mem_filter.mp hp).1 with hstart | hend
  · obtain ⟨⟨o, i⟩, hd, rfl⟩ := List.mem_map.mp hstart
    obtain ⟨before, after, rfl⟩ := List.append_of_mem hd
    refine .inl ⟨before, after, o, i, before.flatMap (block T lines),
      after.flatMap (block T lines) ++ markAt T code.code.length, rfl, rfl, ?_, ?_⟩
    · exact filter_isReal_blocks T lines fun d hd =>
        isReal_of_readAt hread d (List.mem_append_left _ hd)
    · simp [block, markAt, ht]
  · obtain rfl := List.mem_singleton.mp hend
    exact .inr ⟨rfl, decoded.flatMap (block T lines), by rw [markAt, if_pos ht]⟩

/-- The labels of an instruction are those of the offsets its bytes lead to. -/
private theorem relabel_places {o : Nat} {i : Instruction Nat} {next : Cursor}
    (hat : Site.ReadAt code.code o i next) :
    (relabel T i).places = (displacements code.code o).map (fun d => labelOf T (o + d)) := by
  have hcast : i.places.map (fun p : Nat => labelOf T p)
      = (i.places.map Int.ofNat).map (labelOf T) := by
    rw [List.map_map]
    rfl
  rw [relabel, Instruction.places_mapPlaces, hcast, hat.places, List.map_map]
  rfl

private theorem displacement_mem_targets {o : Nat} {i : Instruction Nat} {next : Cursor} {d : Int}
    (hT : T = ((orderedPlaces code decoded).map Int.ofNat).toFinset)
    (hplaces : ∀ p ∈ i.places, p ∈ orderedPlaces code decoded)
    (hat : Site.ReadAt code.code o i next) (hd : d ∈ displacements code.code o) :
    (o : Int) + d ∈ T := by
  have hmap : (o : Int) + d ∈ i.places.map Int.ofNat := by
    rw [hat.places]
    exact List.mem_map.mpr ⟨d, hd, rfl⟩
  obtain ⟨p, hp, hpd⟩ := List.mem_map.mp hmap
  rw [← hpd]
  exact (mem_targets_iff hT p).mpr (hplaces p hp)

/-- A listing made of blocks keeps the targets. -/
theorem keepsTargets_of_blocks
    (hread : ∀ d ∈ decoded, ∃ next, Site.ReadAt code.code d.1 d.2 next)
    (hsorted : (orderedPlaces code decoded).Pairwise (· < ·))
    (hT : T = ((orderedPlaces code decoded).map Int.ofNat).toFinset)
    (hplaces : ∀ d ∈ decoded, ∀ p ∈ d.2.places, p ∈ orderedPlaces code decoded) :
    KeepsTargets code decoded lines T
      (decoded.flatMap (block T lines) ++ markAt T code.code.length) := by
  refine ⟨blocks_numbered hread hsorted hT, fun t ht => blocks_placed hread hT ht,
    fun k o i hk => ?_, blocks_erased hread⟩
  have hd : (o, i) ∈ decoded := List.mem_of_getElem? hk
  obtain ⟨_, hat⟩ := hread _ hd
  refine ⟨relabel T i, by rw [blocks_erased hread, List.getElem?_map, hk]; rfl,
    relabel_places hat, fun d hdisp => ?_⟩
  have htarget := displacement_mem_targets hT (hplaces _ hd) hat hdisp
  exact ⟨htarget, fun u hu hlabel => labelOf_injOn hu htarget hlabel⟩

end Blocks

/-- **Decoding keeps every target.** What it lists has the labels, in the places and
with the operands, that the displacements and the handlers of the code ask for. -/
theorem decode_preserves_targets {code : Code} {pool : Pool} {out : List (Instruction Label)}
    (h : decode code pool = .ok out) :
    ∃ decoded lines, layout code.code pool = .ok decoded
      ∧ (decoded.map Prod.fst).Pairwise (· < ·)
      ∧ Attribute.find LineTable pool code.attributes = .ok lines
      ∧ KeepsTargets code decoded ((lines.map LineTable.entries).getD [])
          (targets code (decoded.map Prod.fst)) out := by
  obtain ⟨decoded, lines, hlayout, hlines, hnamed, rfl⟩ := decode_ok h
  obtain ⟨hsorted, hall⟩ := layout_ok hlayout
  have hread : ∀ d ∈ decoded, ∃ next, Site.ReadAt code.code d.1 d.2 next :=
    fun d hd => (hall d hd).2
  have hordered : (orderedPlaces code decoded).Pairwise (· < ·) :=
    orderedPlaces_increasing hsorted fun d hd => (hall d hd).1
  have hT : targets code (decoded.map Prod.fst)
      = ((orderedPlaces code decoded).map Int.ofNat).toFinset := by
    rw [targets_eq_namedPlaces hread]
    ext t
    simp [mem_orderedPlaces hnamed]
  have hplaces : ∀ d ∈ decoded, ∀ p ∈ d.2.places, p ∈ orderedPlaces code decoded :=
    fun d hd p hp => (mem_orderedPlaces hnamed).mpr
      (List.mem_append_left _ (List.mem_flatMap.mpr ⟨d, hd, hp⟩))
  refine ⟨decoded, lines, hlayout, hsorted, hlines, ?_⟩
  rw [annotate_eq_blocks hordered hT hplaces]
  exact keepsTargets_of_blocks hread hordered hT hplaces

/-- A loop with a jump forward and one back, inside a handler's range that ends with
the code, and two lines. -/
def loopCode : Code where
  maxStack := 1
  maxLocals := 0
  code := [0x03, 0x99, 0x00, 0x06, 0xA7, 0xFF, 0xFC, 0xB1]
  handlers := [⟨0, 8, 7, 0⟩]
  attributes := [⟨1, [0, 2, 0, 0, 0, 10, 0, 7, 0, 12]⟩]

/-- A pool with the name of the line table. -/
def loopPool : Pool := ⟨#[none, some (.text "LineNumberTable")], ∅⟩

/-- The listing of the loop. -/
def loopListing : List (Instruction Label) :=
  [.label ⟨0⟩, .lineNumber 10, .simple 0x03, .jump 0x99 ⟨1⟩, .jump 0xA7 ⟨0⟩, .label ⟨1⟩,
    .lineNumber 12, .simple 0xB1, .label ⟨2⟩]

/-- The jumps of the loop and the ends of the handler get their labels. -/
theorem loopCode_keeps_targets :
    decode loopCode loopPool = .ok loopListing
      ∧ ∃ decoded lines, layout loopCode.code loopPool = .ok decoded
        ∧ (decoded.map Prod.fst).Pairwise (· < ·)
        ∧ Attribute.find LineTable loopPool loopCode.attributes = .ok lines
        ∧ KeepsTargets loopCode decoded ((lines.map LineTable.entries).getD [])
            (targets loopCode (decoded.map Prod.fst)) loopListing := by
  have hdecode : decode loopCode loopPool = .ok loopListing := by rfl
  exact ⟨hdecode, decode_preserves_targets hdecode⟩

end Bytecode

end Classdesk
