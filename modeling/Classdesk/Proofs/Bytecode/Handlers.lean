import Classdesk.Proofs.Bytecode.Labels

/-!
# What decoding asks of an exception table

A handler names three places: where its range starts, where the range stops, and where the
exception is handled. A range stops in front of a place, so it may stop at the very end of
the code; but it starts with an instruction, and only an instruction can handle anything.
`Handler.Meaningful` says this of a handler. Decoding checks less: one loop goes through all
three places of every handler and lets each of them be the end of the code.
`Handler.Admitted` is what passes.

> `decode_admits_handlers`: code that is decoded has an admitted table. If the rest of the
> code is in order, the first place of the table that is not admitted is reported, and a
> table without one leaves only the line numbers to fail. An admitted handler is meaningful
> exactly if it neither starts nor is handled at the end of the code.

`endHandler_accepted` is a handler that is admitted and not meaningful.
-/

namespace Classdesk

/-- The range starts with an instruction and stops in front of one or with the code, and
what handles the exception starts with an instruction. -/
structure Handler.Meaningful (starts : List Nat) (codeLength : Nat) (h : Handler) : Prop where
  start : h.start.toNat ∈ starts
  stop : h.stop.toNat ∈ starts ∨ h.stop.toNat = codeLength
  target : h.target.toNat ∈ starts

/-- Each place is the start of an instruction or the end of the code. -/
structure Handler.Admitted (starts : List Nat) (codeLength : Nat) (h : Handler) : Prop where
  start : h.start.toNat ∈ starts ∨ h.start.toNat = codeLength
  stop : h.stop.toNat ∈ starts ∨ h.stop.toNat = codeLength
  target : h.target.toNat ∈ starts ∨ h.target.toNat = codeLength

/-- Where no instruction starts at the end of the code, only a start or a target there
keeps an admitted handler from being meaningful. -/
theorem Handler.meaningful_iff {starts : List Nat} {codeLength : Nat} {h : Handler}
    (hend : codeLength ∉ starts) :
    h.Meaningful starts codeLength ↔ h.Admitted starts codeLength
      ∧ h.start.toNat ≠ codeLength ∧ h.target.toNat ≠ codeLength := by
  constructor
  · intro hm
    refine ⟨⟨.inl hm.start, hm.stop, .inl hm.target⟩, ?_, ?_⟩
    · intro heq
      exact hend (heq ▸ hm.start)
    · intro heq
      exact hend (heq ▸ hm.target)
  · intro hall
    obtain ⟨ha, hstart, htarget⟩ := hall
    exact ⟨ha.start.resolve_right hstart, ha.stop, ha.target.resolve_right htarget⟩

namespace Bytecode

/-- A jump that leads to none of the given places. -/
def astray (places : List Nat) (jump : Nat × Nat) : Bool := !places.contains jump.2

private theorem astray_eq_false {places : List Nat} {jump : Nat × Nat} :
    astray places jump = false ↔ jump.2 ∈ places := by
  unfold astray
  rw [Bool.not_eq_false', List.contains_iff_mem]

/-- The check of some jumps stops at the first one that leads astray. -/
theorem checkJumps_eq (places : List Nat) (jumps : List (Nat × Nat)) :
    checkJumps places jumps
      = (jumps.find? (astray places)).elim (.ok ()) fun jump =>
          .error (.invalidJump jump.1 jump.2) := by
  induction jumps with
  | nil => rfl
  | cons jump jumps ih =>
    unfold checkJumps
    by_cases hin : places.contains jump.2 = true
    · rw [if_pos hin, List.find?_cons_of_neg (by simpa [astray] using hin), ih]
    · rw [if_neg hin, List.find?_cons_of_pos (by simpa [astray] using hin)]
      rfl

/-- The jumps that instructions make, with the offsets they are made at. -/
def ownJumps (decoded : List (Nat × Instruction Nat)) : List (Nat × Nat) :=
  decoded.flatMap fun d => d.2.places.map fun target => (d.1, target)

/-- Decoding in order: the first pass, the jumps, the handlers, the lines, the second pass. -/
theorem decode_steps (code : Code) (pool : Pool) :
    decode code pool = (do
      let decoded ← layout code.code pool
      checkJumps (decoded.map Prod.fst) (ownJumps decoded)
      checkJumps (decoded.map Prod.fst ++ [code.code.length])
        (code.handlers.flatMap handlerPlaces)
      let lines ← Attribute.find LineTable pool code.attributes
      .ok (annotate (orderedPlaces code decoded) ((lines.map LineTable.entries).getD [])
        code.code.length decoded)) := by
  have hplaces : ∀ decoded, namedPlaces code decoded
      = (ownJumps decoded ++ code.handlers.flatMap handlerPlaces).map Prod.snd := by
    intro decoded
    simp only [namedPlaces, ownJumps, List.map_append, List.map_flatMap, List.map_map,
      Function.comp_def, List.map_id']
  simp only [orderedPlaces, hplaces]
  rfl

/-- The targets of jumps and switches are starts of instructions. -/
def TargetsStart (decoded : List (Nat × Instruction Nat)) : Prop :=
  ∀ d ∈ decoded, ∀ t ∈ d.2.places, t ∈ decoded.map Prod.fst

/-- Jumps that all lead to instructions leave nothing to report. -/
private theorem TargetsStart.find?_astray {decoded : List (Nat × Instruction Nat)}
    (h : TargetsStart decoded) :
    (ownJumps decoded).find? (astray (decoded.map Prod.fst)) = none := by
  rw [List.find?_eq_none]
  intro jump hjump
  obtain ⟨d, hd, hmem⟩ := List.mem_flatMap.mp hjump
  obtain ⟨t, ht, rfl⟩ := List.mem_map.mp hmem
  rw [astray_eq_false.mpr (h d hd t ht)]
  decide

/-- When the code itself is in order, decoding goes on to the handlers, then to the lines. -/
theorem decode_eq {code : Code} {pool : Pool} {decoded : List (Nat × Instruction Nat)}
    (hlayout : layout code.code pool = .ok decoded) (hown : TargetsStart decoded) :
    decode code pool
      = ((code.handlers.flatMap handlerPlaces).find?
          (astray (decoded.map Prod.fst ++ [code.code.length]))).elim
        ((Attribute.find LineTable pool code.attributes).map fun lines =>
          annotate (orderedPlaces code decoded) ((lines.map LineTable.entries).getD [])
            code.code.length decoded)
        fun jump => .error (.invalidJump jump.1 jump.2) := by
  rw [decode_steps, hlayout]
  show (checkJumps _ _ >>= fun _ => _) = _
  rw [checkJumps_eq, hown.find?_astray]
  show (checkJumps _ _ >>= fun _ => _) = _
  rw [checkJumps_eq]
  cases (code.handlers.flatMap handlerPlaces).find?
      (astray (decoded.map Prod.fst ++ [code.code.length])) with
  | some jump => rfl
  | none =>
    cases Attribute.find LineTable pool code.attributes with
    | error fault => rfl
    | ok lines => rfl

/-- A handler is admitted if none of its places leads astray. -/
theorem admitted_iff {starts : List Nat} {codeLength : Nat} {h : Handler} :
    h.Admitted starts codeLength
      ↔ ∀ jump ∈ handlerPlaces h, astray (starts ++ [codeLength]) jump = false := by
  have hplace : (∀ jump ∈ handlerPlaces h, astray (starts ++ [codeLength]) jump = false)
      ↔ ∀ place ∈ [h.start, h.stop, h.target],
          place.toNat ∈ starts ∨ place.toNat = codeLength := by
    unfold handlerPlaces
    rw [List.forall_mem_map]
    simp only [astray_eq_false, List.mem_append, List.mem_singleton]
  rw [hplace]
  constructor
  · intro ha place hmem
    simp only [List.mem_cons, List.not_mem_nil, or_false] at hmem
    rcases hmem with rfl | rfl | rfl
    · exact ha.start
    · exact ha.stop
    · exact ha.target
  · intro hall
    exact ⟨hall _ (by simp), hall _ (by simp), hall _ (by simp)⟩

/-- The whole table is admitted exactly if nothing in it is found to lead astray. -/
theorem find?_astray_eq_none {starts : List Nat} {codeLength : Nat} {handlers : List Handler} :
    (handlers.flatMap handlerPlaces).find? (astray (starts ++ [codeLength])) = none
      ↔ ∀ h ∈ handlers, h.Admitted starts codeLength := by
  simp only [List.find?_eq_none, List.mem_flatMap, admitted_iff, Bool.not_eq_true]
  constructor
  · intro hall h hh jump hjump
    exact hall jump ⟨h, hh, hjump⟩
  · intro hall jump hex
    obtain ⟨h, hh, hjump⟩ := hex
    exact hall h hh jump hjump

/-- No instruction starts at the end of the code. -/
theorem length_not_mem_starts {code : Bytes} {pool : Pool}
    {decoded : List (Nat × Instruction Nat)} (h : layout code pool = .ok decoded) :
    code.length ∉ decoded.map Prod.fst := by
  intro hmem
  obtain ⟨d, hd, heq⟩ := List.mem_map.mp hmem
  have hlt := ((layout_ok h).2 d hd).1
  omega

/-- How the exception table of some code decides whether it is decoded, when its
instructions are `decoded`. -/
structure ChecksTable (code : Code) (pool : Pool) (decoded : List (Nat × Instruction Nat)) :
    Prop where
  /-- Code that is decoded has an admitted table. -/
  admits : ∀ out, decode code pool = .ok out →
    ∀ h ∈ code.handlers, h.Admitted (decoded.map Prod.fst) code.code.length
  /-- Behind an admitted table only the lines can fail. -/
  accepts : TargetsStart decoded →
    (∀ h ∈ code.handlers, h.Admitted (decoded.map Prod.fst) code.code.length) →
      ((∃ out, decode code pool = .ok out)
        ↔ ∃ lines, Attribute.find LineTable pool code.attributes = .ok lines)
  /-- Of any other table the first place that leads astray is reported. -/
  reports : TargetsStart decoded →
    (¬ ∀ h ∈ code.handlers, h.Admitted (decoded.map Prod.fst) code.code.length) →
      ∃ jump, (code.handlers.flatMap handlerPlaces).find?
          (astray (decoded.map Prod.fst ++ [code.code.length])) = some jump
        ∧ decode code pool = .error (.invalidJump jump.1 jump.2)
  /-- Admitted handlers are meaningful, those apart that start or are handled at the end. -/
  meaningful : ∀ h : Handler, h.Meaningful (decoded.map Prod.fst) code.code.length
    ↔ h.Admitted (decoded.map Prod.fst) code.code.length
      ∧ h.start.toNat ≠ code.code.length ∧ h.target.toNat ≠ code.code.length

/-- Code that is decoded has handlers that name starts of instructions or its end only. -/
theorem admitted_of_decode {code : Code} {pool : Pool} {out : List (Instruction Label)}
    {decoded : List (Nat × Instruction Nat)} (hout : decode code pool = .ok out)
    (hlayout : layout code.code pool = .ok decoded) :
    ∀ h ∈ code.handlers, h.Admitted (decoded.map Prod.fst) code.code.length := by
  obtain ⟨found, -, hfound, -, hnamed, -⟩ := decode_ok hout
  obtain rfl : found = decoded := Except.ok.inj (hfound.symm.trans hlayout)
  rw [← find?_astray_eq_none, List.find?_eq_none]
  intro jump hjump
  have hmem : jump.2 ∈ namedPlaces code found :=
    List.mem_append_right _ (List.mem_map_of_mem hjump)
  rw [astray_eq_false.mpr (hnamed _ hmem)]
  decide

/-- **What decoding asks of an exception table.** Code that is decoded has passed the first
pass, and for all code that passes it the table is checked as `ChecksTable` says. -/
theorem decode_admits_handlers (code : Code) (pool : Pool) :
    (∀ out, decode code pool = .ok out → ∃ decoded, layout code.code pool = .ok decoded)
      ∧ ∀ decoded, layout code.code pool = .ok decoded → ChecksTable code pool decoded := by
  refine ⟨?_, ?_⟩
  · intro out hout
    obtain ⟨decoded, -, hlayout, -⟩ := decode_ok hout
    exact ⟨decoded, hlayout⟩
  · intro decoded hlayout
    refine ⟨fun out hout => admitted_of_decode hout hlayout, ?_, ?_,
      fun h => Handler.meaningful_iff (length_not_mem_starts hlayout)⟩
    · intro hown hall
      rw [decode_eq hlayout hown, find?_astray_eq_none.mpr hall]
      cases Attribute.find LineTable pool code.attributes with
      | error fault => simp [Except.map]
      | ok lines => simp [Except.map]
    · intro hown hsome
      rw [decode_eq hlayout hown]
      rw [← find?_astray_eq_none] at hsome
      cases hfind : (code.handlers.flatMap handlerPlaces).find?
          (astray (decoded.map Prod.fst ++ [code.code.length])) with
      | none => exact absurd hfind hsome
      | some jump => exact ⟨jump, rfl, rfl⟩

/-- Two instructions. The first handler is in order, the second one stops behind the code. -/
def brokenTableCode : Code := ⟨1, 0, [0x00, 0xBF], [⟨0, 2, 1, 0⟩, ⟨0, 5, 1, 0⟩], []⟩

/-- The code itself is fine, but its table names an offset behind its end. -/
theorem brokenTable_reported :
    layout brokenTableCode.code .empty = .ok [(0, .simple 0x00), (1, .simple 0xBF)]
      ∧ decode brokenTableCode .empty = .error (.invalidJump 0 5) := by
  have hlayout : layout brokenTableCode.code .empty
      = .ok [(0, .simple 0x00), (1, .simple 0xBF)] := by rfl
  have hchecks := (decode_admits_handlers brokenTableCode .empty).2 _ hlayout
  have hown : TargetsStart [(0, .simple 0x00), (1, .simple 0xBF)] := by
    unfold TargetsStart
    decide
  have hbroken : ¬ ∀ h ∈ brokenTableCode.handlers, h.Admitted [0, 1] 2 := by
    intro hall
    have hstop := (hall ⟨0, 5, 1, 0⟩ (by decide)).stop
    revert hstop
    decide
  obtain ⟨jump, hfind, hdecode⟩ := hchecks.reports hown hbroken
  refine ⟨hlayout, ?_⟩
  rw [hdecode]
  have hjump : some jump = some (0, 5) := by
    rw [← hfind]
    decide
  rw [Option.some.inj hjump]
  rfl

/-- A `return`, and a handler for it behind the end of the code. -/
def endHandlerCode : Code := ⟨0, 0, [0xB1], [⟨0, 1, 1, 0⟩], []⟩

/-- The end of the code passes for the start of a handler. -/
theorem endHandler_accepted :
    decode endHandlerCode .empty = .ok [.label ⟨0⟩, .simple 0xB1, .label ⟨1⟩]
      ∧ layout endHandlerCode.code .empty = .ok [(0, .simple 0xB1)]
      ∧ ¬ ∀ h ∈ endHandlerCode.handlers, h.Meaningful [0] endHandlerCode.code.length := by
  refine ⟨by rfl, by rfl, ?_⟩
  intro hall
  have htarget := (hall ⟨0, 1, 1, 0⟩ (by decide)).target
  revert htarget
  decide

end Bytecode

end Classdesk
