import Classdesk.Proofs.Listing.Wording

/-!
# Listings line by line

`listing` says what a listing is: lines of text, each at a depth. The header and the closing
brace stand at depth 0, fields and the outer lines of methods at depth 1, instructions at
depth 2, and there is an empty line between two members. A printer never sees such lines.
It runs a script of pieces, line ends and changes of level against an indenter. The main
result is that the outcome is the same:

> `print_eq_listing`: a class whose methods have at most 26 parameters is printed as
> `renderLines printer.indent (listing printer.formatter c)`; otherwise the first method
> with more is named in the fault.

Names may hold line feeds, and a header or signature that does is more than one line; those
are left out here.
-/

namespace Classdesk.Listing

open Script

/-! ## Lines -/

/-- A line of a listing. -/
structure Line where
  depth : Nat
  text : String

/-- A line with its indentation and its end. -/
def Line.render (unit : String) (l : Line) : String :=
  String.join (List.replicate l.depth unit) ++ l.text ++ "\n"

/-- The line between two members. -/
def Line.blank : Line := ⟨0, ""⟩

/-- Some lines as a text. -/
def renderLines (unit : String) (lines : List Line) : String :=
  String.join (lines.map (Line.render unit))

private theorem renderLines_append (unit : String) (xs ys : List Line) :
    renderLines unit (xs ++ ys) = renderLines unit xs ++ renderLines unit ys := by
  rw [renderLines, List.map_append, String.join_append]
  rfl

/-- The lines of a method. -/
def methodLines (formatter : Formatter) (m : MethodDeclaration) : List Line :=
  [⟨1, signatureText m⟩]
    ++ (m.instructions.filterMap formatter.text).map (fun text =>
        ⟨2, "." ++ Text.onOneLine text⟩)
    ++ [⟨1, "\x7d"⟩]

/-- The lines of each member, fields before methods. -/
def memberLines (formatter : Formatter) (c : ClassDeclaration) : List (List Line) :=
  c.fields.map (fun f => [⟨1, fieldText f⟩]) ++ c.methods.map (methodLines formatter)

/-- The lines of a class. -/
def listing (formatter : Formatter) (c : ClassDeclaration) : List Line :=
  [⟨0, headerText c⟩] ++ List.intercalate [Line.blank] (memberLines formatter c)
    ++ [⟨0, "\x7d"⟩]

/-! ## Scripts that write lines -/

/-- The indenter with some more text, which is whole lines. -/
def Indenter.added (out : Indenter String) (text : String) : Indenter String :=
  { out with sink := out.sink ++ text }

/-- At the start of a line and at this depth, the script writes a text, which depends on the
indentation only, and ends at the start of a line, at the same depth. -/
def Adds (script : Script) (depth : Nat) (text : String → String) : Prop :=
  ∀ (rest : Script) (out : Indenter String), out.level = depth → out.inLine = false →
    run (script ++ rest) out = run rest (out.added (text out.unit))

theorem adds_nil (depth : Nat) : Adds [] depth fun _ => "" := by
  intro rest out _ _
  rw [Indenter.added, String.append_empty]
  rfl

/-- What two scripts add stands one behind the other. -/
theorem Adds.append {a b : Script} {depth : Nat} {f g : String → String} (ha : Adds a depth f)
    (hb : Adds b depth g) : Adds (a ++ b) depth fun unit => f unit ++ g unit := by
  intro rest out hlevel hline
  rw [List.append_assoc, ha _ out hlevel hline, hb _ (out.added _) hlevel hline]
  simp only [Indenter.added, String.append_assoc]

/-- Text between a change of level and its undoing stands one deeper. -/
theorem Adds.nested {script : Script} {depth : Nat} {f : String → String}
    (h : Adds script (depth + 1) f) :
    Adds ([.ok .indent] ++ script ++ [.ok .unindent]) depth f := by
  intro rest out hlevel hline
  rw [List.append_assoc, List.append_assoc]
  show run (.ok .indent :: (script ++ (.ok .unindent :: rest))) out = _
  rw [run_ok_cons, h _ (out.after .indent) (congrArg (· + 1) hlevel) hline, run_ok_cons]
  rfl

/-- The script writes these lines. -/
def Writes (script : Script) (depth : Nat) (lines : List Line) : Prop :=
  Adds script depth (renderLines · lines)

/-- The lines of two scripts stand one behind the other. -/
theorem Writes.append {a b : Script} {depth : Nat} {xs ys : List Line} (ha : Writes a depth xs)
    (hb : Writes b depth ys) : Writes (a ++ b) depth (xs ++ ys) := by
  have h := Adds.append ha hb
  simp only [← renderLines_append] at h
  exact h

private theorem writes_flatMap {α : Type} {as : List α} {script : α → Script}
    {lines : α → List Line} {depth : Nat} (h : ∀ a ∈ as, Writes (script a) depth (lines a)) :
    Writes (as.flatMap script) depth (as.flatMap lines) := by
  induction as with
  | nil => exact adds_nil depth
  | cons a as ih =>
    exact (h a (List.mem_cons_self ..)).append (ih fun b hb => h b (List.mem_cons_of_mem _ hb))

/-- An empty line gets no indentation. -/
theorem writes_blank (depth : Nat) : Writes [.ok .newline] depth [Line.blank] := by
  intro rest out _ hline
  show run (.ok .newline :: rest) out = _
  rw [run_ok_cons]
  show run rest { out with sink := out.sink ++ "\n", inLine := false } = _
  rw [← hline]
  rfl

/-- A text as a line. Behind each of its line feeds it is indented anew. -/
def indentedLine (unit : String) (depth : Nat) (text : String) : String :=
  String.ofList (indented (String.join (List.replicate depth unit)).toList false text.toList)
    ++ "\n"

/-- A script that spells a line adds it with its margin, and with whatever breaks are in it. -/
theorem Script.SpellsLine.adds {script : Script} {text : String} (h : SpellsLine script text)
    (depth : Nat) : Adds script depth (indentedLine · depth text) := by
  intro rest out hlevel hline
  obtain ⟨pieces, last, rfl, rfl⟩ := h
  rw [List.append_assoc, run_texts]
  show run (.ok (.text last) :: .ok .newline :: rest) _ = _
  rw [run_ok_cons, run_ok_cons]
  show run rest (((out.wrote _).wrote _).after .newline) = _
  rw [← Indenter.wrote_append, ← String.toList_append]
  simp only [Indenter.wrote, Indenter.after, Indenter.added, Indenter.margin, indentedLine, hlevel,
    hline, String.append_assoc]

/-- A text without line feeds is indented once. -/
theorem indentedLine_of_unbroken {text : String} (hbreaks : breaks text = 0) (hne : text ≠ "")
    (unit : String) (depth : Nat) :
    indentedLine unit depth text = renderLines unit [⟨depth, text⟩] := by
  have hchars : text.toList ≠ [] := fun heq => hne (String.toList_eq_nil_iff.mp heq)
  rw [indentedLine, indented_of_not_mem (breaks_eq_zero.mp hbreaks), if_neg hchars]
  simp only [Bool.false_eq_true, if_false, String.ofList_append, String.ofList_toList, renderLines,
    List.map_cons, List.map_nil, join_singleton, Line.render]

/-- Without breaks it is one line of the listing. -/
theorem Script.SpellsLine.writes {script : Script} {text : String} (h : SpellsLine script text)
    (hbreaks : breaks text = 0) (hne : text ≠ "") (depth : Nat) :
    Writes script depth [⟨depth, text⟩] := by
  have hadds := h.adds depth
  simp only [indentedLine_of_unbroken hbreaks hne] at hadds
  exact hadds

/-! ## Members -/

/-- Lists with a separator: the first one, then the others with a separator each. -/
theorem lines_intercalate_cons {α : Type} (sep first : List α) (others : List (List α)) :
    List.intercalate sep (first :: others) = first ++ others.flatMap (sep ++ ·) := by
  induction others generalizing first with
  | nil => rw [List.intercalate_singleton, List.flatMap_nil, List.append_nil]
  | cons next others ih =>
    rw [List.intercalate_cons_cons, ih, List.flatMap_cons, List.append_assoc,
      List.append_assoc]

/-- Members that write lines are separated by empty lines. -/
theorem writes_separated {α : Type} {as : List α} {script : α → Script} {lines : α → List Line}
    {depth : Nat} (h : ∀ a ∈ as, Writes (script a) depth (lines a)) :
    Writes (separated [.ok .newline] (as.map script)) depth
      (List.intercalate [Line.blank] (as.map lines)) := by
  cases as with
  | nil => exact adds_nil depth
  | cons a as =>
    rw [List.map_cons, List.map_cons, separated, lines_intercalate_cons, List.flatMap_map,
      List.flatMap_map]
    refine (h a (List.mem_cons_self ..)).append (writes_flatMap fun b hb => ?_)
    exact (writes_blank depth).append (h b (List.mem_cons_of_mem _ hb))

private theorem separated_cons_of_ne_nil (sep script : Script) {others : List Script}
    (h : others ≠ []) :
    separated sep (script :: others) = script ++ sep ++ separated sep others := by
  obtain ⟨next, others, rfl⟩ := List.exists_cons_of_ne_nil h
  rw [separated, separated, List.flatMap_cons]
  simp only [List.append_assoc]

/-- With separators, what comes before an element ends with one. -/
theorem separated_append_cons (sep : Script) (before : List Script) (script : Script)
    (behind : List Script) :
    separated sep (before ++ script :: behind)
      = before.flatMap (· ++ sep) ++ separated sep (script :: behind) := by
  induction before with
  | nil => rfl
  | cons first before ih =>
    have hne : before ++ script :: behind ≠ [] := List.append_ne_nil_of_right_ne_nil _ (by simp)
    rw [List.cons_append, separated_cons_of_ne_nil sep first hne, ih, List.flatMap_cons,
      ← List.append_assoc]

private theorem append_ne_empty (a : String) {b : String} (h : b ≠ "") : a ++ b ≠ "" :=
  fun heq => h (String.append_eq_empty_iff.mp heq).2

theorem closing_writes (depth : Nat) : Writes (Script.line "\x7d") depth [⟨depth, "\x7d"⟩] :=
  SpellsLine.writes ⟨[], "\x7d", rfl, rfl⟩ rfl (by decide) depth

private theorem header_writes {c : ClassDeclaration} (h : breaks (headerText c) = 0) :
    Writes (header c) 0 [⟨0, headerText c⟩] :=
  (header_spells c).writes h (append_ne_empty _ (by decide)) 0

/-- A field is one line, whatever its name and value are. -/
theorem field_writes (f : FieldDeclaration) : Writes (field f) 1 [⟨1, fieldText f⟩] := by
  refine (field_spells f).writes (breaks_fieldText f) (append_ne_empty _ ?_) 1
  rw [Text.onOneLine_append]
  exact append_ne_empty _ (by decide)

/-- An instruction is one line, whatever its text is. -/
theorem instruction_writes (text : String) :
    Writes (texts ["."] ++ Script.line (Text.onOneLine text)) 2
      [⟨2, "." ++ Text.onOneLine text⟩] := by
  refine (instruction_spells text).writes ?_ ?_ 2
  · rw [breaks_append, Text.breaks_onOneLine]
    rfl
  · intro heq
    exact absurd (String.append_eq_empty_iff.mp heq).1 (by decide)

/-- A method with names for all its parameters: a signature, a deeper block, a brace. -/
theorem method_eq (formatter : Formatter) {m : MethodDeclaration}
    (hwidth : m.type.parameters.length ≤ 26) :
    method formatter m = signature m ++ ([.ok .indent] ++
      (m.instructions.filterMap formatter.text).flatMap (fun text =>
        texts ["."] ++ Script.line (Text.onOneLine text)) ++ [.ok .unindent])
      ++ Script.line "\x7d" := by
  have hnames : ¬ m.type.parameters.length > parameterNames.length := by
    have hlength : parameterNames.length = 26 := rfl
    omega
  rw [method, if_neg hnames, signature]
  simp only [List.append_assoc]

/-- A method that can be printed is its signature, its instructions and a closing line. -/
theorem method_writes (formatter : Formatter) {m : MethodDeclaration}
    (hwidth : m.type.parameters.length ≤ 26) (hbreaks : breaks (signatureText m) = 0) :
    Writes (method formatter m) 1 (methodLines formatter m) := by
  rw [method_eq formatter hwidth, methodLines]
  refine (((signature_spells hwidth).writes hbreaks (append_ne_empty _ (by decide)) 1).append
    (Adds.nested ?_)).append (closing_writes 1)
  rw [List.map_eq_flatMap]
  exact writes_flatMap fun text _ => instruction_writes text

/-! ## Faults -/

/-- The first fault of a script. -/
def Script.fault? (script : Script) : Option PrintFault :=
  script.findSome? fun
    | .error fault => some fault
    | .ok _ => none

/-- The first fault is the first of the front, or else of the back. -/
theorem fault?_append (a b : Script) : fault? (a ++ b) = (fault? a).or (fault? b) :=
  List.findSome?_append

/-- Into a text, a script runs to its end or to its first fault. -/
theorem run_fault (script : Script) (out : Indenter String) :
    (run script out).1 = match fault? script with
      | some fault => .error fault
      | none => .ok () := by
  induction script generalizing out with
  | nil => rfl
  | cons step script ih =>
    cases step with
    | error fault => rfl
    | ok op =>
      rw [run_ok_cons]
      exact ih _

theorem fault?_flatMap {α : Type} (as : List α) (script : α → Script) :
    fault? (as.flatMap script) = as.findSome? fun a => fault? (script a) := by
  induction as with
  | nil => rfl
  | cons a as ih =>
    rw [List.flatMap_cons, fault?_append, ih, List.findSome?_cons]
    cases fault? (script a) with
    | none => rfl
    | some fault => rfl

private theorem fault?_separated (members : List Script) :
    fault? (separated [.ok .newline] members) = members.findSome? fault? := by
  cases members with
  | nil => rfl
  | cons first others =>
    rw [separated, fault?_append, fault?_flatMap, List.findSome?_cons]
    cases fault? first with
    | none => rfl
    | some fault => rfl

private theorem fault?_texts (pieces : List String) : fault? (texts pieces) = none := by
  rw [fault?, texts, List.findSome?_map, List.findSome?_eq_none_iff]
  intro piece _
  rfl

theorem Script.SpellsLine.fault? {script : Script} {text : String}
    (h : SpellsLine script text) : script.fault? = none := by
  obtain ⟨pieces, last, rfl, -⟩ := h
  rw [fault?_append, fault?_texts]
  rfl

/-- A method that has more parameters than there are names. -/
def tooWide (m : MethodDeclaration) : Bool := 26 < m.type.parameters.length

private theorem find?_tooWide {methods : List MethodDeclaration} {m : MethodDeclaration}
    (hm : m ∈ methods) (hwide : 26 < m.type.parameters.length) :
    ∃ first, methods.find? tooWide = some first := by
  cases hfind : methods.find? tooWide with
  | none => exact absurd (decide_eq_true hwide) (List.find?_eq_none.mp hfind m hm)
  | some first => exact ⟨first, rfl⟩

/-- What is wrong with such a method. -/
def widthFault (m : MethodDeclaration) : PrintFault :=
  .tooManyParameters m.name.text m.type.parameters.length

/-- A method has a fault exactly if it has more parameters than letters. -/
theorem method_fault? (formatter : Formatter) (m : MethodDeclaration) :
    fault? (method formatter m) = if tooWide m then some (widthFault m) else none := by
  by_cases hwide : 26 < m.type.parameters.length
  · have hnames : m.type.parameters.length > parameterNames.length := hwide
    rw [method, if_pos hnames, if_pos (show tooWide m = true from decide_eq_true hwide)]
    rfl
  · have hwidth : m.type.parameters.length ≤ 26 := Nat.le_of_not_lt hwide
    have hbody : ∀ text ∈ m.instructions.filterMap formatter.text,
        fault? (texts ["."] ++ Script.line (Text.onOneLine text)) = none :=
      fun text _ => (instruction_spells text).fault?
    rw [method_eq formatter hwidth, if_neg (by simpa [tooWide] using hwidth), fault?_append,
      fault?_append, (signature_spells hwidth).fault?, fault?_append, fault?_append,
      fault?_flatMap, List.findSome?_eq_none_iff.mpr hbody]
    rfl

/-- The first fault of a class is that of its first wide method. -/
private theorem findSome?_method (formatter : Formatter) (methods : List MethodDeclaration) :
    (methods.map (method formatter)).findSome? fault?
      = (methods.find? tooWide).map widthFault := by
  induction methods with
  | nil => rfl
  | cons m methods ih =>
    rw [List.map_cons, List.findSome?_cons, List.find?_cons, method_fault?]
    cases tooWide m with
    | true => rfl
    | false => exact ih

/-- A listing fails only where a method has too many parameters. -/
theorem script_fault? (printer : Printer) (c : ClassDeclaration) :
    fault? (printer.script c) = (c.methods.find? tooWide).map widthFault := by
  have hfields : (c.fields.map field).findSome? fault? = none := by
    rw [List.findSome?_map, List.findSome?_eq_none_iff]
    intro f _
    exact (field_spells f).fault?
  rw [Printer.script, fault?_append, fault?_append, fault?_append, fault?_append,
    (header_spells c).fault?, fault?_separated, List.findSome?_append, hfields,
    findSome?_method]
  cases c.methods.find? tooWide with
  | none => rfl
  | some m => rfl

/-! ## Classes -/

/-- No name that goes into a header or a signature as it is holds a line feed. -/
structure NamesUnbroken (c : ClassDeclaration) : Prop where
  name : '\n' ∉ c.name.text.toList
  superclass : ∀ s ∈ c.superclass, '\n' ∉ s.text.toList
  interfaces : ∀ i ∈ c.interfaces, '\n' ∉ i.text.toList
  methods : ∀ m ∈ c.methods, '\n' ∉ m.name.text.toList
  results : ∀ m ∈ c.methods, '\n' ∉ m.type.javaResult.toList
  parameters : ∀ m ∈ c.methods, ∀ t ∈ m.type.parameters, '\n' ∉ t.javaName.toList

private theorem sum_breaks_eq_zero {α : Type} {as : List α} {text : α → String}
    (h : ∀ a ∈ as, '\n' ∉ (text a).toList) : (as.map fun a => breaks (text a)).sum = 0 := by
  rw [List.sum_eq_zero]
  intro n hn
  obtain ⟨a, ha, rfl⟩ := List.mem_map.mp hn
  exact breaks_eq_zero.mpr (h a ha)

theorem NamesUnbroken.header {c : ClassDeclaration} (h : NamesUnbroken c) :
    breaks (headerText c) = 0 := by
  have hsuper : ∀ s ∈ c.superclass.toList, '\n' ∉ s.text.toList :=
    fun s hs => h.superclass s (Option.mem_toList.mp hs)
  rw [breaks_headerText, breaks_eq_zero.mpr h.name, sum_breaks_eq_zero hsuper,
    sum_breaks_eq_zero h.interfaces]

theorem NamesUnbroken.signature {c : ClassDeclaration} (h : NamesUnbroken c)
    {m : MethodDeclaration} (hm : m ∈ c.methods) : breaks (signatureText m) = 0 := by
  rw [breaks_signatureText, breaks_eq_zero.mpr (h.results m hm),
    breaks_eq_zero.mpr (h.methods m hm), sum_breaks_eq_zero (h.parameters m hm)]

/-- The members of a class are written with blank lines between them. -/
private theorem members_writes (formatter : Formatter) {c : ClassDeclaration} (h : NamesUnbroken c)
    (hwidth : ∀ m ∈ c.methods, m.type.parameters.length ≤ 26) :
    Writes (separated [.ok .newline] (c.fields.map field ++ c.methods.map (method formatter)))
      1 (List.intercalate [Line.blank] (memberLines formatter c)) := by
  -- Each member beside its lines, so that both lists are images of one.
  let members : List (Script × List Line) :=
    c.fields.map (fun f => (field f, [⟨1, fieldText f⟩]))
      ++ c.methods.map fun m => (method formatter m, methodLines formatter m)
  have hscripts : c.fields.map field ++ c.methods.map (method formatter)
      = members.map Prod.fst := by
    simp only [members, List.map_append, List.map_map]
    rfl
  have hlines : memberLines formatter c = members.map Prod.snd := by
    simp only [members, memberLines, List.map_append, List.map_map]
    rfl
  rw [hscripts, hlines]
  apply writes_separated
  intro member hmember
  rcases List.mem_append.mp hmember with hfield | hmethod
  · obtain ⟨f, -, rfl⟩ := List.mem_map.mp hfield
    exact field_writes f
  · obtain ⟨m, hm, rfl⟩ := List.mem_map.mp hmethod
    exact method_writes formatter (hwidth m hm) (h.signature hm)

/-- A class: a header, its members one deeper, a brace. -/
theorem script_eq (printer : Printer) (c : ClassDeclaration) :
    printer.script c = header c ++ ([.ok .indent] ++ separated [.ok .newline]
      (c.fields.map field ++ c.methods.map (method printer.formatter)) ++ [.ok .unindent])
      ++ Script.line "\x7d" := by
  rw [Printer.script]
  simp only [List.append_assoc]

/-- A class that can be printed, with names that break no line, is written as its listing. -/
private theorem script_writes (printer : Printer) {c : ClassDeclaration} (h : NamesUnbroken c)
    (hwidth : ∀ m ∈ c.methods, m.type.parameters.length ≤ 26) :
    Writes (printer.script c) 0 (listing printer.formatter c) := by
  rw [script_eq, listing]
  exact ((header_writes h.header).append
    (Adds.nested (members_writes printer.formatter h hwidth))).append (closing_writes 0)

/-- A script without fault gives a text, and one with a fault reports the first. -/
theorem print_cases (printer : Printer) (c : ClassDeclaration) :
    (∃ fault, fault? (printer.script c) = some fault ∧ printer.print c = .error fault)
      ∨ fault? (printer.script c) = none ∧ ∃ text, printer.print c = .ok text := by
  have hrun := run_fault (printer.script c) (Indenter.ofSink printer.indent "")
  rw [Printer.print]
  cases hout : run (printer.script c) (Indenter.ofSink printer.indent "") with
  | mk result out =>
    rw [hout] at hrun
    cases hfault : fault? (printer.script c) with
    | none =>
      rw [hfault] at hrun
      cases hrun
      exact .inr ⟨rfl, out.sink, rfl⟩
    | some fault =>
      rw [hfault] at hrun
      cases hrun
      exact .inl ⟨fault, rfl, rfl⟩

/-- The printed text is what the script adds. -/
theorem print_of_adds {printer : Printer} {c : ClassDeclaration} {text : String → String}
    (h : Adds (printer.script c) 0 text) : printer.print c = .ok (text printer.indent) := by
  have hrun := h [] (Indenter.ofSink printer.indent "") rfl rfl
  rw [List.append_nil] at hrun
  rw [Printer.print, hrun]
  show Except.ok ("" ++ text printer.indent) = _
  rw [String.empty_append]

/-- What a printer makes of a class. -/
structure PrintsListing (printer : Printer) (c : ClassDeclaration) : Prop where
  fails_iff : (∃ fault, printer.print c = .error fault)
    ↔ ∃ m ∈ c.methods, 26 < m.type.parameters.length
  /-- The first method with too many parameters is the one that is named. -/
  fault : ∀ m, c.methods.find? (fun m => 26 < m.type.parameters.length) = some m →
    printer.print c = .error (.tooManyParameters m.name.text m.type.parameters.length)
  text : (∀ m ∈ c.methods, m.type.parameters.length ≤ 26) →
    printer.print c = .ok (renderLines printer.indent (listing printer.formatter c))
  /-- Each line of the listing is one line. -/
  unbroken : ∀ l ∈ listing printer.formatter c, '\n' ∉ l.text.toList

private theorem mem_of_mem_intercalate {α : Type} {sep : List α} {lists : List (List α)} {a : α}
    (h : a ∈ List.intercalate sep lists) : a ∈ sep ∨ ∃ l ∈ lists, a ∈ l := by
  cases lists with
  | nil => cases h
  | cons first others =>
    rw [lines_intercalate_cons, List.mem_append, List.mem_flatMap] at h
    rcases h with hfirst | ⟨l, hl, ha⟩
    · exact .inr ⟨first, List.mem_cons_self .., hfirst⟩
    · rcases List.mem_append.mp ha with hsep | hmem
      · exact .inl hsep
      · exact .inr ⟨l, List.mem_cons_of_mem _ hl, hmem⟩

private theorem breaks_methodLines (formatter : Formatter) {m : MethodDeclaration}
    (h : breaks (signatureText m) = 0) {l : Line} (hl : l ∈ methodLines formatter m) :
    breaks l.text = 0 := by
  rw [methodLines, List.mem_append, List.mem_append, List.mem_singleton, List.mem_singleton,
    List.mem_map] at hl
  rcases hl with (hsignature | ⟨text, -, hinstruction⟩) | hclosing
  · rw [hsignature]
    exact h
  · rw [← hinstruction]
    show breaks ("." ++ Text.onOneLine text) = 0
    rw [breaks_append, Text.breaks_onOneLine]
    rfl
  · rw [hclosing]
    rfl

/-- No line of a listing breaks. -/
private theorem breaks_listing (formatter : Formatter) {c : ClassDeclaration} (h : NamesUnbroken c)
    {l : Line} (hl : l ∈ listing formatter c) : breaks l.text = 0 := by
  rw [listing, List.mem_append, List.mem_append, List.mem_singleton, List.mem_singleton] at hl
  rcases hl with (hheader | hmember) | hclosing
  · rw [hheader]
    exact h.header
  · rcases mem_of_mem_intercalate hmember with hblank | ⟨lines, hlines, hl⟩
    · rw [List.mem_singleton.mp hblank]
      rfl
    · rcases List.mem_append.mp hlines with hfield | hmethod
      · obtain ⟨f, -, rfl⟩ := List.mem_map.mp hfield
        rw [List.mem_singleton.mp hl]
        exact breaks_fieldText f
      · obtain ⟨m, hm, rfl⟩ := List.mem_map.mp hmethod
        exact breaks_methodLines formatter (h.signature hm) hl
  · rw [hclosing]
    rfl

private theorem print_of_narrow (printer : Printer) {c : ClassDeclaration} (h : NamesUnbroken c)
    (hwidth : ∀ m ∈ c.methods, m.type.parameters.length ≤ 26) :
    printer.print c = .ok (renderLines printer.indent (listing printer.formatter c)) :=
  print_of_adds (script_writes printer h hwidth)

private theorem print_of_wide (printer : Printer) {c : ClassDeclaration} {m : MethodDeclaration}
    (h : c.methods.find? tooWide = some m) : printer.print c = .error (widthFault m) := by
  have hfault : fault? (printer.script c) = some (widthFault m) := by
    rw [script_fault?, h]
    rfl
  rcases print_cases printer c with ⟨fault, hfirst, hprint⟩ | ⟨hnone, -⟩
  · rw [hfault] at hfirst
    cases hfirst
    exact hprint
  · rw [hfault] at hnone
    cases hnone

/-- Names for all parameters are enough for a listing. -/
theorem exists_print (printer : Printer) {c : ClassDeclaration}
    (h : c.methods.find? tooWide = none) : ∃ text, printer.print c = .ok text := by
  rcases print_cases printer c with ⟨fault, hfault, -⟩ | ⟨-, htext⟩
  · rw [script_fault?, h] at hfault
    cases hfault
  · exact htext

/-- What is printed has names for all parameters. -/
theorem narrow_of_print {printer : Printer} {c : ClassDeclaration} {text : String}
    (h : printer.print c = .ok text) : ∀ m ∈ c.methods, m.type.parameters.length ≤ 26 := by
  intro m hm
  apply Nat.le_of_not_lt
  intro hwide
  obtain ⟨first, hfind⟩ := find?_tooWide hm hwide
  rw [print_of_wide printer hfind] at h
  cases h

/-- **A class is printed as its listing**, whatever the indentation and the formatter, or the
first method with too many parameters is reported. -/
theorem print_eq_listing (printer : Printer) {c : ClassDeclaration} (h : NamesUnbroken c) :
    PrintsListing printer c where
  fails_iff := by
    constructor
    · intro hfails
      obtain ⟨fault, hfault⟩ := hfails
      -- With few parameters everywhere there would be a text.
      by_contra hnarrow
      have hwidth : ∀ m ∈ c.methods, m.type.parameters.length ≤ 26 := by
        intro m hm
        exact Nat.le_of_not_lt fun hwide => hnarrow ⟨m, hm, hwide⟩
      rw [print_of_narrow printer h hwidth] at hfault
      cases hfault
    · intro hwide
      obtain ⟨m, hm, hwide⟩ := hwide
      obtain ⟨first, hfind⟩ := find?_tooWide hm hwide
      exact ⟨widthFault first, print_of_wide printer hfind⟩
  fault _ hfind := print_of_wide printer hfind
  text hwidth := print_of_narrow printer h hwidth
  unbroken _ hl := breaks_eq_zero.mp (breaks_listing printer.formatter h hl)

/-- Tabs for indentation, and constants written on two lines. -/
def twoLinePrinter : Printer where
  formatter := Formatter.standard.insert .constant fun _ => some "two\nlines"
  indent := "\t"

/-- A class with a field of a value on two lines, and a method with a label and a constant. -/
def greeter : ClassDeclaration where
  flags := .truncate _ 0x20
  name := ⟨"a/B", rfl⟩
  superclass := some ⟨"java/lang/Object", rfl⟩
  interfaces := [⟨"a/I", rfl⟩, ⟨"a/J", rfl⟩]
  fields := [⟨.truncate _ 0x8, ⟨"x", rfl⟩, .ref (.object ⟨"a/T", rfl⟩), some (.string "a\nb")⟩]
  methods := [⟨.truncate _ 0x1, ⟨"f", rfl⟩, ⟨[.base .int, .base .long], none⟩,
    [.label ⟨0⟩, .constant 0x12 (.string "")]⟩]

/-- What was on two lines is on one. -/
theorem greeter_prints_listing :
    NamesUnbroken greeter
      ∧ twoLinePrinter.print greeter = .ok (renderLines "\t"
        [⟨0, "class a/B implements a/I, a/J \x7b"⟩, ⟨1, "static a.T x = \"a\\nb\";"⟩, .blank,
          ⟨1, "public void f(int a, long b) \x7b"⟩, ⟨2, ".label L0"⟩, ⟨2, ".two\\nlines"⟩,
          ⟨1, "\x7d"⟩, ⟨0, "\x7d"⟩]) := by
  have h : NamesUnbroken greeter := by
    constructor
    all_goals decide
  refine ⟨h, ((print_eq_listing twoLinePrinter h).text (by decide)).trans ?_⟩
  exact congrArg (fun lines => Except.ok (renderLines "\t" lines)) rfl

end Classdesk.Listing
