import Classdesk.Proofs.Listing.Layout
import Classdesk.Proofs.Listing.Passing

/-!
# Listings stop where the sink does

A listing reaches its sink in many small writes, and any of them may be refused. A sink that
takes a number of writes and no more (`Rationed`) then holds exactly those: no write is made
behind one that was refused, and none is left out. How a run ends can be told from the number
of writes alone:

> `stops_cleanly`: the run fails with the sink exactly if it makes more writes than the sink
> takes. Otherwise it succeeds, or names the first method with too many parameters, of which
> nothing is written.

The writes of a run are those that a `WriteLog` gets from it in place of the sink.
-/

namespace Classdesk.Listing

namespace Script

variable {σ : Type} [Sink σ]

/-! ## Running a script into any sink -/

/-- How a script ends if nothing is refused. -/
def outcome (script : Script) : Except PrintFault Unit :=
  match fault? script with
  | some fault => .error fault
  | none => .ok ()

private theorem continues_run {τ : Type} [Sink τ] (op : Op) (script : Script) :
    Continues (Indenter.apply op : Output τ Unit) (run script) (run (.ok op :: script))
      (.error .sinkFailed) := by
  intro out
  rw [run]
  cases Indenter.apply op out with
  | mk result next =>
    cases result with
    | none => rfl
    | some u => rfl

/-- A script makes the writes that it logs, up to the first that is refused. -/
theorem passes_run (script : Script) :
    Passes (run script : Indenter σ → _) (run script) script.outcome (.error .sinkFailed) := by
  induction script with
  | nil => exact fun out log => ⟨[], out.onto log, passesAt_nil rfl rfl rfl⟩
  | cons step script ih =>
    cases step with
    | error fault => exact fun out log => ⟨[], out.onto log, passesAt_nil rfl rfl rfl⟩
    | ok op =>
      exact (Indenter.passes_apply op).seq ih (continues_run op script)
        (continues_run op script)

/-- The writes of a script, one by one, as a sink that refuses nothing is given them. -/
def writes (script : Script) (out : Indenter σ) : List String :=
  (run script (out.onto (WriteLog.mk []))).2.sink.pieces

/-- A script goes on where its front ended, unless that stopped. -/
theorem run_append (a b : Script) (out : Indenter σ) :
    run (a ++ b) out = match run a out with
      | (.ok (), next) => run b next
      | (.error fault, stop) => (.error fault, stop) := by
  induction a generalizing out with
  | nil => rfl
  | cons step a ih =>
    cases step with
    | error fault => rfl
    | ok op =>
      rw [List.cons_append, run, run]
      cases Indenter.apply op out with
      | mk result next =>
        cases result with
        | none => rfl
        | some u => exact ih next

/-- The log refuses nothing, so a script without faults runs through on it. -/
private theorem run_log {script : Script} (h : fault? script = none) (out : Indenter σ) :
    (run script (out.onto (WriteLog.mk []))).1 = .ok () := by
  rw [((passes_run script).fromEmpty out).logged_eq, outcome, h]

/-- Nothing is written behind a fault. -/
theorem writes_append_error {a : Script} (h : fault? a = none) (fault : PrintFault)
    (b : Script) (out : Indenter σ) : writes (a ++ .error fault :: b) out = writes a out := by
  -- The log refuses nothing, so the run comes to the fault and stops there.
  have hlog := run_log h out
  rw [writes, writes, run_append]
  cases hrun : run a (out.onto (WriteLog.mk [])) with
  | mk result next =>
    rw [hrun] at hlog
    cases hlog
    rfl

end Script

/-! ## Sinks that run full -/

/-- A sink that stores some more writes, each as a whole, and then refuses all others. -/
structure Rationed {σ : Type} [Sink σ] (contents : σ → String) (left : σ → Nat) : Prop where
  refuses : ∀ sink piece, left sink = 0 → Sink.accept sink piece = none
  accepts : ∀ sink piece, left sink ≠ 0 → ∃ next, Sink.accept sink piece = some next
    ∧ left next + 1 = left sink ∧ contents next = contents sink ++ piece

namespace Rationed

variable {σ : Type} [Sink σ] {contents : σ → String} {left : σ → Nat}

/-- Of some pieces, a sink stores as many as it takes. -/
theorem offer_eq (h : Rationed contents left) (sink : σ) (pieces : List String) :
    ∃ last, offer sink pieces = (decide (pieces.length ≤ left sink), last)
      ∧ contents last = contents sink ++ String.join (pieces.take (left sink)) := by
  induction pieces generalizing sink with
  | nil =>
    refine ⟨sink, rfl, ?_⟩
    rw [List.take_nil, String.join_nil, String.append_empty]
  | cons piece pieces ih =>
    -- The first refusal is also the last thing that happens.
    by_cases hleft : left sink = 0
    · refine ⟨sink, ?_, ?_⟩
      · rw [offer, h.refuses sink piece hleft, hleft]
        rfl
      · rw [hleft, List.take_zero, String.join_nil, String.append_empty]
    · obtain ⟨next, haccept, hnext, hcontents⟩ := h.accepts sink piece hleft
      obtain ⟨last, hoffer, hlast⟩ := ih next
      refine ⟨last, ?_, ?_⟩
      · rw [offer, haccept, ← hnext, List.length_cons]
        simpa only [Nat.add_le_add_iff_right] using hoffer
      · rw [hlast, hcontents, ← hnext, List.take_succ_cons, String.join_cons,
          String.append_assoc]

/-- A run ends with the sink exactly if it makes more writes than the sink takes. -/
theorem run_result (h : Rationed contents left) (script : Script) (out : Indenter σ) :
    (script.run out).1
      = if (script.writes out).length ≤ left out.sink then script.outcome
        else .error .sinkFailed := by
  have hrun := (Script.passes_run script).fromEmpty out
  obtain ⟨last, hoffer, -⟩ := h.offer_eq out.sink (script.writes out)
  split
  next hfits =>
    rw [decide_eq_true hfits] at hoffer
    rw [hrun.taken last hoffer]
  next hfull =>
    rw [decide_eq_false hfull] at hoffer
    obtain ⟨stop, hstop, -⟩ := hrun.refused last hoffer
    rw [hstop]

/-- However a run ends, the sink holds as many of its writes as it takes. -/
theorem run_contents (h : Rationed contents left) (script : Script) (out : Indenter σ) :
    contents (script.run out).2.sink
      = contents out.sink ++ String.join ((script.writes out).take (left out.sink)) := by
  have hrun := (Script.passes_run script).fromEmpty out
  obtain ⟨last, hoffer, hlast⟩ := h.offer_eq out.sink (script.writes out)
  have hsink : (script.run out).2.sink = last := by
    cases hall : decide ((script.writes out).length ≤ left out.sink) with
    | true =>
      rw [hall] at hoffer
      rw [hrun.taken last hoffer]
      rfl
    | false =>
      rw [hall] at hoffer
      obtain ⟨stop, hstop, hsink⟩ := hrun.refused last hoffer
      rw [hstop]
      exact hsink
  rw [hsink, hlast]

end Rationed

/-- Into a text, a script makes all its writes. -/
theorem Script.run_text {σ : Type} [Sink σ] (script : Script) (out : Indenter σ) :
    (script.run (out.onto "")).2.sink = String.join (script.writes out) := by
  have hrun := (passes_run script).fromEmpty (out.onto "")
  rw [hrun.taken _ (offer_text "" (script.writes out))]
  exact String.empty_append

/-! ## Up to a method -/

/-- The steps of a listing up to where the method behind `before` starts, which is below an
empty line if there are other members. -/
def Printer.scriptBefore (printer : Printer) (c : ClassDeclaration)
    (before : List MethodDeclaration) : Script :=
  header c ++ [.ok .indent] ++
    (c.fields.map field ++ before.map (method printer.formatter)).flatMap (· ++ [.ok .newline])

/-- The method `m` is the first with more parameters than there are names. -/
structure FirstWide (c : ClassDeclaration) (before : List MethodDeclaration)
    (m : MethodDeclaration) : Prop where
  methods : ∃ behind, c.methods = before ++ m :: behind
  narrow : ∀ m ∈ before, m.type.parameters.length ≤ 26
  wide : 26 < m.type.parameters.length

namespace FirstWide

variable {c : ClassDeclaration} {before : List MethodDeclaration} {m : MethodDeclaration}

private theorem find?_eq (h : FirstWide c before m) : c.methods.find? tooWide = some m := by
  obtain ⟨behind, hmethods⟩ := h.methods
  refine List.find?_eq_some_iff_append.mpr ⟨decide_eq_true h.wide, before, behind, hmethods, ?_⟩
  intro m hm
  simpa [tooWide] using h.narrow m hm

private theorem of_find? (h : c.methods.find? tooWide = some m) :
    ∃ before, FirstWide c before m := by
  obtain ⟨hwide, before, behind, hmethods, hnarrow⟩ := List.find?_eq_some_iff_append.mp h
  refine ⟨before, ⟨behind, hmethods⟩, ?_, of_decide_eq_true hwide⟩
  intro m hm
  simpa [tooWide] using hnarrow m hm

/-- In front of the first wide method nothing is wrong. -/
private theorem scriptBefore_fault? (h : FirstWide c before m) (printer : Printer) :
    Script.fault? (printer.scriptBefore c before) = none := by
  have hmembers : ∀ script ∈ c.fields.map field ++ before.map (method printer.formatter),
      Script.fault? (script ++ [.ok .newline]) = none := by
    intro script hscript
    rw [fault?_append]
    rcases List.mem_append.mp hscript with hfield | hmethod
    · obtain ⟨f, -, rfl⟩ := List.mem_map.mp hfield
      rw [(field_spells f).fault?]
      rfl
    · obtain ⟨m, hm, rfl⟩ := List.mem_map.mp hmethod
      rw [method_fault?, if_neg (by simpa [tooWide] using h.narrow m hm)]
      rfl
  rw [Printer.scriptBefore, fault?_append, fault?_append, (header_spells c).fault?,
    fault?_flatMap, List.findSome?_eq_none_iff.mpr hmembers]
  rfl

/-- The fault is all that a listing has of a method with too many parameters. -/
theorem script_eq (h : FirstWide c before m) (printer : Printer) :
    ∃ rest, printer.script c = printer.scriptBefore c before ++ .error (widthFault m) :: rest := by
  obtain ⟨behind, hmethods⟩ := h.methods
  have hmethod : method printer.formatter m = [.error (widthFault m)] := if_pos h.wide
  refine ⟨(behind.map (method printer.formatter)).flatMap ([.ok .newline] ++ ·)
    ++ ([.ok .unindent] ++ Script.line "\x7d"), ?_⟩
  rw [Printer.script, hmethods, List.map_append, List.map_cons, hmethod, ← List.append_assoc,
    separated_append_cons, separated, Printer.scriptBefore]
  simp only [List.append_assoc, List.cons_append, List.nil_append]

private theorem mem_methods (h : FirstWide c before m) : m ∈ c.methods :=
  List.mem_of_find?_eq_some h.find?_eq

private theorem outcome_eq (h : FirstWide c before m) (printer : Printer) :
    (printer.script c).outcome = .error (widthFault m) := by
  rw [Script.outcome, script_fault?, h.find?_eq]
  rfl

/-- All writes of the listing are made before the method. -/
theorem writes_eq {σ : Type} [Sink σ] (h : FirstWide c before m) (printer : Printer)
    (out : Indenter σ) :
    (printer.script c).writes out = (printer.scriptBefore c before).writes out := by
  obtain ⟨rest, hscript⟩ := h.script_eq printer
  rw [hscript, Script.writes_append_error (h.scriptBefore_fault? printer)]

end FirstWide

/-! ## Classes -/

section Classes

variable {σ : Type} [Sink σ]

/-- How a listing ends. Here `left` counts the writes that a sink still takes, so a write is
refused exactly if more are made than there are left. -/
structure StopsCleanly (contents : σ → String) (left : σ → Nat) (printer : Printer)
    (c : ClassDeclaration) (out : Indenter σ) : Prop where
  /-- The sink holds the first writes, as many as it takes. -/
  stored : contents ((printer.script c).run out).2.sink
    = contents out.sink ++ String.join (((printer.script c).writes out).take (left out.sink))
  /-- That is the beginning of what a text gets, which takes everything. -/
  beginning : ∃ taken rest,
    contents ((printer.script c).run out).2.sink = contents out.sink ++ taken
      ∧ ((printer.script c).run (out.onto "")).2.sink = taken ++ rest
  ok_iff : ((printer.script c).run out).1 = .ok () ↔
    ((printer.script c).writes out).length ≤ left out.sink
      ∧ ∀ m ∈ c.methods, m.type.parameters.length ≤ 26
  refused_iff : ((printer.script c).run out).1 = .error .sinkFailed ↔
    left out.sink < ((printer.script c).writes out).length
  tooMany_iff : (∃ name count,
      ((printer.script c).run out).1 = .error (.tooManyParameters name count)) ↔
    ∃ before m, FirstWide c before m
      ∧ ((printer.scriptBefore c before).writes out).length ≤ left out.sink
  /-- If a method with too many parameters is reached, it is named and the listing ends right
  before it. -/
  untouched : ∀ before m, FirstWide c before m →
    ((printer.scriptBefore c before).writes out).length ≤ left out.sink →
    (printer.scriptBefore c before).run out = (.ok (), ((printer.script c).run out).2)
      ∧ ((printer.script c).run out).1
        = .error (.tooManyParameters m.name.text m.type.parameters.length)

variable {contents : σ → String} {left : σ → Nat}

/-- A write is refused, or the listing is complete, or a method has too many parameters. -/
theorem run_cases (h : Rationed contents left) (printer : Printer) (c : ClassDeclaration)
    (out : Indenter σ) :
    left out.sink < ((printer.script c).writes out).length
        ∧ ((printer.script c).run out).1 = .error .sinkFailed
      ∨ ((printer.script c).writes out).length ≤ left out.sink
        ∧ (∀ m ∈ c.methods, m.type.parameters.length ≤ 26)
        ∧ ((printer.script c).run out).1 = .ok ()
      ∨ ((printer.script c).writes out).length ≤ left out.sink
        ∧ ∃ before m, FirstWide c before m
          ∧ ((printer.script c).run out).1 = .error (widthFault m) := by
  -- Without a refusal the script decides alone, and its only faults are those of methods.
  have hresult := h.run_result (printer.script c) out
  by_cases hfits : ((printer.script c).writes out).length ≤ left out.sink
  · rw [if_pos hfits] at hresult
    rw [hresult]
    cases hfind : c.methods.find? tooWide with
    | none =>
      refine .inr (.inl ⟨hfits, ?_, ?_⟩)
      · intro m hm
        simpa [tooWide] using List.find?_eq_none.mp hfind m hm
      · rw [Script.outcome, script_fault?, hfind]
        rfl
    | some m =>
      obtain ⟨before, hfirst⟩ := FirstWide.of_find? hfind
      exact .inr (.inr ⟨hfits, before, m, hfirst, hfirst.outcome_eq printer⟩)
  · rw [if_neg hfits] at hresult
    exact .inl ⟨Nat.lt_of_not_le hfits, hresult⟩

/-- Where the method is reached, the listing ends as it is before it. -/
theorem FirstWide.run_eq {c : ClassDeclaration} {before : List MethodDeclaration}
    {m : MethodDeclaration} (hfirst : FirstWide c before m) (h : Rationed contents left)
    (printer : Printer) (out : Indenter σ)
    (hfits : ((printer.scriptBefore c before).writes out).length ≤ left out.sink) :
    (printer.scriptBefore c before).run out = (.ok (), ((printer.script c).run out).2)
      ∧ ((printer.script c).run out).1 = .error (widthFault m) := by
  obtain ⟨rest, hscript⟩ := hfirst.script_eq printer
  have hok : ((printer.scriptBefore c before).run out).1 = .ok () := by
    rw [h.run_result, if_pos hfits, Script.outcome, hfirst.scriptBefore_fault?]
  rw [hscript, Script.run_append]
  cases hrun : (printer.scriptBefore c before).run out with
  | mk result next =>
    rw [hrun] at hok
    cases hok
    exact ⟨rfl, rfl⟩

/-- **A listing stops cleanly**, whatever the class, the printer, the number of writes that the
sink takes, and the state of the indenter in which the listing starts. -/
theorem stops_cleanly (h : Rationed contents left) (printer : Printer) (c : ClassDeclaration)
    (out : Indenter σ) : StopsCleanly contents left printer c out where
  stored := h.run_contents (printer.script c) out
  beginning := by
    refine ⟨_, String.join (((printer.script c).writes out).drop (left out.sink)),
      h.run_contents (printer.script c) out, ?_⟩
    rw [Script.run_text, ← String.join_append, List.take_append_drop]
  ok_iff := by
    rcases run_cases h printer c out with
      ⟨hmore, hran⟩ | ⟨hfits, hnarrow, hran⟩ | ⟨hfits, before, m, hfirst, hran⟩
    · rw [hran]
      exact iff_of_false nofun fun hall => Nat.not_le_of_lt hmore hall.1
    · exact iff_of_true hran ⟨hfits, hnarrow⟩
    · rw [hran]
      exact iff_of_false nofun fun hall =>
        Nat.not_le_of_lt hfirst.wide (hall.2 m hfirst.mem_methods)
  refused_iff := by
    rcases run_cases h printer c out with
      ⟨hmore, hran⟩ | ⟨hfits, -, hran⟩ | ⟨hfits, before, m, -, hran⟩
    · exact iff_of_true hran hmore
    · rw [hran]
      exact iff_of_false nofun (Nat.not_lt_of_le hfits)
    · rw [hran]
      exact iff_of_false nofun (Nat.not_lt_of_le hfits)
  tooMany_iff := by
    rcases run_cases h printer c out with
      ⟨hmore, hran⟩ | ⟨-, hnarrow, hran⟩ | ⟨hfits, before, m, hfirst, hran⟩
    · rw [hran]
      refine iff_of_false nofun ?_
      rintro ⟨before, m, hfirst, hfits⟩
      -- The write that was refused belongs to what is before the method.
      rw [hfirst.writes_eq] at hmore
      exact Nat.not_le_of_lt hmore hfits
    · rw [hran]
      refine iff_of_false nofun ?_
      rintro ⟨before, m, hfirst, -⟩
      exact Nat.not_le_of_lt hfirst.wide (hnarrow m hfirst.mem_methods)
    · rw [hfirst.writes_eq] at hfits
      exact iff_of_true ⟨_, _, hran⟩ ⟨before, m, hfirst, hfits⟩
  untouched _ _ hfirst hfits := hfirst.run_eq h printer out hfits

end Classes

/-- A text that takes some more pieces. -/
structure RationedText where
  left : Nat
  text : String

instance : Sink RationedText where
  accept sink piece :=
    match sink.left with
    | 0 => none
    | left + 1 => some ⟨left, sink.text ++ piece⟩

private theorem rationed_text : Rationed RationedText.text RationedText.left where
  refuses := by
    rintro ⟨left, text⟩ piece hleft
    cases hleft
    rfl
  accepts := by
    rintro ⟨left, text⟩ piece hleft
    cases left with
    | zero => exact absurd rfl hleft
    | succ left => exact ⟨⟨left, text ++ piece⟩, rfl, rfl, rfl⟩

/-- A class of one method, with 27 parameters. -/
def overloaded : ClassDeclaration where
  flags := .truncate _ 0x20
  name := ⟨"C", rfl⟩
  superclass := none
  interfaces := []
  fields := []
  methods := [⟨.truncate _ 0x1, ⟨"sum", rfl⟩, ⟨List.replicate 27 (.base .int), none⟩, []⟩]

/-- The output for it, which takes `left` writes. -/
def rationedOutput (left : Nat) : Indenter RationedText := .ofSink "  " ⟨left, ""⟩

/-- The header is four writes. With room for three, the sink ends the listing, and with room
for four the method does. -/
theorem overloaded_stops_cleanly :
    Rationed RationedText.text RationedText.left
      ∧ ((Printer.standard.script overloaded).run (rationedOutput 3)).1 = .error .sinkFailed
      ∧ ((Printer.standard.script overloaded).run (rationedOutput 3)).2.sink.text
        = "class C \x7b"
      ∧ ((Printer.standard.script overloaded).run (rationedOutput 4)).1
        = .error (.tooManyParameters "sum" 27)
      ∧ ((Printer.standard.script overloaded).run (rationedOutput 4)).2.sink.text
        = "class C \x7b\n" := by
  have hat (left : Nat) :=
    stops_cleanly rationed_text Printer.standard overloaded (rationedOutput left)
  have hfirst : FirstWide overloaded [] (overloaded.methods.head (by decide)) :=
    ⟨⟨[], rfl⟩, nofun, by decide⟩
  refine ⟨rationed_text, (hat 3).refused_iff.mpr (by decide +kernel), ?_,
    ((hat 4).untouched [] _ hfirst (by decide +kernel)).2, ?_⟩
  · rw [(hat 3).stored]
    decide +kernel
  · rw [(hat 4).stored]
    decide +kernel

end Classdesk.Listing
