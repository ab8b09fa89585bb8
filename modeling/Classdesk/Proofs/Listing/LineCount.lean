import Classdesk.Proofs.Listing.Layout

/-!
# How many lines a listing has

By its shape, a listing has a line for the header and one for the closing brace, one for
each field, two for each method and one for each instruction that is listed, and an empty
line between two members. What fields and instructions hold does not change that number.
Names that a header or a signature spells out do: each line feed in one of them is a line
more.

> `lineCount_print`: `lineCount text = shapeLines formatter c + nameBreaks c`

The count is taken along the script and not along the lines of `listing`, since those are
lines only if no name is broken. So the number of lines follows from the shape alone exactly
if no such name holds a line feed, and names may hold one: `brokenName_adds_line` is a class
whose header takes two lines.
-/

namespace Classdesk

/-- The number of lines of a text; a last line without end counts. -/
def lineCount (text : String) : Nat := (Text.splitAfter '\n' text.toList).length

/-- A text that ends with its last line has as many lines as line feeds. -/
theorem length_splitAfter_concat (cs : List Char) :
    (Text.splitAfter '\n' (cs ++ ['\n'])).length = (cs ++ ['\n']).count '\n' := by
  induction cs with
  | nil => rfl
  | cons c cs ih =>
    rw [List.cons_append, Text.splitAfter, List.count_cons]
    by_cases hc : c = '\n'
    · rw [if_pos hc, List.length_cons, ih, hc]
      rfl
    · rw [if_neg hc, if_neg (by simpa using hc), Nat.add_zero, ← ih]
      cases hsplit : Text.splitAfter '\n' (cs ++ ['\n']) with
      | nil =>
        -- The pieces make up the text, which is not empty.
        have hflat := Text.flatten_splitAfter '\n' (cs ++ ['\n'])
        rw [hsplit] at hflat
        exact absurd hflat.symm (by simp)
      | cons piece pieces => rfl

private theorem lineCount_of_ends {text front : String} (h : text = front ++ "\n") :
    lineCount text = breaks text := by
  rw [lineCount, breaks, h, String.toList_append]
  exact length_splitAfter_concat front.toList

namespace Listing

open Script

/-! ## Line feeds along a script -/

/-- How many line feeds a step writes. -/
def stepFeeds : Except PrintFault Op → Nat
  | .ok (.text s) => breaks s
  | .ok .newline => 1
  | _ => 0

/-- How many line feeds a script writes. -/
def Script.feedCount (script : Script) : Nat := (script.map stepFeeds).sum

private theorem feedCount_append (a b : Script) :
    feedCount (a ++ b) = feedCount a + feedCount b := by
  rw [feedCount, List.map_append, List.sum_append]
  rfl

private theorem feedCount_cons (step : Except PrintFault Op) (script : Script) :
    feedCount (step :: script) = stepFeeds step + feedCount script := by
  rw [feedCount, List.map_cons, List.sum_cons]
  rfl

/-- A margin without line feeds adds none. -/
theorem count_indented {margin : List Char} (hmargin : '\n' ∉ margin) (inLine : Bool)
    (cs : List Char) : (indented margin inLine cs).count '\n' = cs.count '\n' := by
  induction cs generalizing inLine with
  | nil => rfl
  | cons c cs ih =>
    rw [indented, List.count_cons]
    by_cases hc : c = '\n'
    · rw [if_pos hc, List.count_cons, ih]
    · have hfront : (if inLine = true then [] else margin).count '\n' = 0 := by
        rw [List.count_eq_zero]
        by_cases hin : inLine = true
        · rw [if_pos hin]
          simp
        · rw [if_neg hin]
          exact hmargin
      rw [if_neg hc, List.count_append, hfront, List.count_cons, ih, Nat.zero_add]

private theorem breaks_margin {out : Indenter String} (hunit : breaks out.unit = 0) :
    '\n' ∉ out.margin.toList := by
  rw [← breaks_eq_zero, Indenter.margin, breaks_join, List.sum_eq_zero]
  intro n hn
  obtain ⟨piece, hpiece, rfl⟩ := List.mem_map.mp hn
  rw [List.eq_of_mem_replicate hpiece]
  exact hunit

/-- A step writes its own line feeds and no others. -/
theorem breaks_after {out : Indenter String} (hunit : breaks out.unit = 0) (op : Op) :
    breaks (out.after op).sink = breaks out.sink + stepFeeds (.ok op) := by
  cases op with
  | text s =>
    have hpiece : breaks (String.ofList (indented out.margin.toList out.inLine s.toList))
        = breaks s := by
      rw [breaks, String.toList_ofList, count_indented (breaks_margin hunit)]
      rfl
    show breaks (out.sink ++ String.ofList _) = breaks out.sink + breaks s
    rw [breaks_append, hpiece]
  | newline => exact breaks_append out.sink "\n"
  | indent => rfl
  | unindent => rfl

private theorem unit_after (out : Indenter String) (op : Op) : (out.after op).unit = out.unit := by
  cases op <;> rfl

/-- A script that runs to its end has written its own line feeds. -/
theorem breaks_run {script : Script} {out final : Indenter String}
    (hunit : breaks out.unit = 0) (h : run script out = (.ok (), final)) :
    breaks final.sink = breaks out.sink + feedCount script := by
  induction script generalizing out with
  | nil =>
    cases h
    rfl
  | cons step script ih =>
    cases step with
    | error fault => cases h
    | ok op =>
      rw [run_ok_cons] at h
      rw [ih (by rw [unit_after]; exact hunit) h, breaks_after hunit, feedCount_cons,
        Nat.add_assoc]

/-- The text of a script that ends with a closing brace ends there. -/
theorem ends_of_run {script : Script} {out final : Indenter String}
    (h : run (script ++ Script.line "\x7d") out = (.ok (), final)) :
    ∃ front, final.sink = front ++ "\x7d\n" := by
  induction script generalizing out with
  | nil =>
    rw [List.nil_append, Script.line, run_ok_cons, run_ok_cons] at h
    cases h
    have hbrace : indented out.margin.toList out.inLine "\x7d".toList
        = (if out.inLine then [] else out.margin.toList) ++ ['\x7d'] :=
      indented_of_not_mem (by decide) _
    refine ⟨out.sink ++ String.ofList (if out.inLine then [] else out.margin.toList), ?_⟩
    show out.sink ++ String.ofList (indented _ _ _) ++ "\n" = _
    rw [hbrace, String.ofList_append, ← String.append_assoc, String.append_assoc]
    rfl
  | cons step script ih =>
    cases step with
    | error fault => cases h
    | ok op =>
      rw [List.cons_append, run_ok_cons] at h
      exact ih h

/-! ## Line feeds of each part -/

private theorem feedCount_texts (pieces : List String) :
    feedCount (texts pieces) = breaks (String.join pieces) := by
  rw [feedCount, texts, List.map_map, breaks_join]
  rfl

/-- A line has its own end and the line feeds of its text. -/
theorem Script.SpellsLine.feedCount {script : Script} {text : String}
    (h : SpellsLine script text) : script.feedCount = breaks text + 1 := by
  obtain ⟨pieces, last, rfl, rfl⟩ := h
  rw [feedCount_append, feedCount_texts, breaks_append, Nat.add_assoc]
  rfl

private theorem feedCount_flatMap {α : Type} (as : List α) (script : α → Script) :
    Script.feedCount (as.flatMap script) = (as.map fun a => (script a).feedCount).sum := by
  induction as with
  | nil => rfl
  | cons a as ih => rw [List.flatMap_cons, feedCount_append, ih, List.map_cons, List.sum_cons]

private theorem sum_map_one {α : Type} {as : List α} {f : α → Nat} (h : ∀ a ∈ as, f a = 1) :
    (as.map f).sum = as.length := by
  rw [List.map_congr_left h, List.map_const', List.sum_replicate_nat, Nat.mul_one]

/-- Between two members there is one line more. -/
theorem feedCount_separated (members : List Script) :
    Script.feedCount (separated [.ok .newline] members)
      = (members.map Script.feedCount).sum + (members.length - 1) := by
  cases members with
  | nil => rfl
  | cons first others =>
    have hothers : (others.map fun m => Script.feedCount ([.ok .newline] ++ m)).sum
        = (others.map Script.feedCount).sum + others.length := by
      induction others with
      | nil => rfl
      | cons m others ih =>
        rw [List.map_cons, List.sum_cons, ih, List.map_cons, List.sum_cons, List.length_cons,
          feedCount_append]
        show 1 + m.feedCount + _ = _
        omega
    rw [separated, feedCount_append, feedCount_flatMap, hothers, List.map_cons, List.sum_cons,
      List.length_cons, Nat.add_sub_cancel, Nat.add_assoc]

/-- The lines of a method by its shape. -/
def methodShape (formatter : Formatter) (m : MethodDeclaration) : Nat :=
  2 + (m.instructions.filterMap formatter.text).length

/-- A method has its lines, and the breaks of its signature on top. -/
private theorem feedCount_method (formatter : Formatter) {m : MethodDeclaration}
    (hwidth : m.type.parameters.length ≤ 26) :
    Script.feedCount (method formatter m)
      = methodShape formatter m + breaks (signatureText m) := by
  have hbody : ∀ text ∈ m.instructions.filterMap formatter.text,
      Script.feedCount (texts ["."] ++ Script.line (Text.onOneLine text)) = 1 := by
    intro text _
    rw [(instruction_spells text).feedCount, breaks_append, Text.breaks_onOneLine]
    rfl
  have hclosing : Script.feedCount (Script.line "\x7d") = 1 := rfl
  have hindent : Script.feedCount [.ok .indent] = 0 := rfl
  have hunindent : Script.feedCount [.ok .unindent] = 0 := rfl
  rw [method_eq formatter hwidth, feedCount_append, feedCount_append, feedCount_append,
    feedCount_append, (signature_spells hwidth).feedCount, feedCount_flatMap,
    sum_map_one hbody, hclosing, hindent, hunindent, methodShape]
  omega

/-! ## Line feeds of a class -/

/-- The lines of a class by its shape. -/
def shapeLines (formatter : Formatter) (c : ClassDeclaration) : Nat :=
  2 + c.fields.length + (c.methods.map (methodShape formatter)).sum
    + (c.fields.length + c.methods.length - 1)

/-- The names that a signature spells out. -/
def signatureNames (m : MethodDeclaration) : List String :=
  [m.type.javaResult, m.name.text] ++ m.type.parameters.map FieldType.javaName

/-- The names that a header spells out. -/
def headerNames (c : ClassDeclaration) : List String :=
  [c.name.text] ++ c.superclass.toList.map ClassName.text ++ c.interfaces.map ClassName.text

/-- The names that go into a listing as they are. -/
def spelledNames (c : ClassDeclaration) : List String :=
  headerNames c ++ c.methods.flatMap signatureNames

/-- The line feeds in those names. -/
def nameBreaks (c : ClassDeclaration) : Nat := ((spelledNames c).map breaks).sum

/-- The header breaks as often as its names do. -/
theorem breaks_headerNames (c : ClassDeclaration) :
    breaks (headerText c) = ((headerNames c).map breaks).sum := by
  rw [breaks_headerText, headerNames, List.map_append, List.map_append, List.sum_append,
    List.sum_append, List.map_map, List.map_map]
  rfl

/-- So does a signature. -/
theorem breaks_signatureNames (m : MethodDeclaration) :
    breaks (signatureText m) = ((signatureNames m).map breaks).sum := by
  rw [breaks_signatureText, signatureNames, List.map_append, List.sum_append, List.map_map]
  rfl

private theorem nameBreaks_eq (c : ClassDeclaration) :
    nameBreaks c = breaks (headerText c)
      + (c.methods.map fun m => breaks (signatureText m)).sum := by
  have hsignatures : ∀ methods : List MethodDeclaration,
      ((methods.flatMap signatureNames).map breaks).sum
        = (methods.map fun m => breaks (signatureText m)).sum := by
    intro methods
    induction methods with
    | nil => rfl
    | cons m methods ih =>
      rw [List.flatMap_cons, List.map_append, List.sum_append, ih, ← breaks_signatureNames,
        List.map_cons, List.sum_cons]
  rw [nameBreaks, spelledNames, List.map_append, List.sum_append, ← breaks_headerNames,
    hsignatures]

private theorem sum_breaks_iff {names : List String} :
    (names.map breaks).sum = 0 ↔ ∀ name ∈ names, '\n' ∉ name.toList := by
  rw [List.sum_eq_zero_iff_forall_eq_nat, List.forall_mem_map]
  simp only [breaks_eq_zero]

/-- No names break exactly if none holds a line feed. -/
theorem nameBreaks_eq_zero {c : ClassDeclaration} : nameBreaks c = 0 ↔ NamesUnbroken c := by
  rw [nameBreaks, sum_breaks_iff]
  constructor
  · intro h
    have hheader : ∀ name ∈ headerNames c, '\n' ∉ name.toList :=
      fun name hname => h name (List.mem_append_left _ hname)
    have hsignature : ∀ m ∈ c.methods, ∀ name ∈ signatureNames m, '\n' ∉ name.toList :=
      fun m hm name hname =>
        h name (List.mem_append_right _ (List.mem_flatMap.mpr ⟨m, hm, hname⟩))
    exact {
      name := hheader _ (by simp [headerNames])
      superclass := fun s hs => hheader _ <| List.mem_append_left _ <|
        List.mem_append_right _ <| List.mem_map_of_mem (Option.mem_toList.mpr hs)
      interfaces := fun i hi => hheader _ <| List.mem_append_right _ (List.mem_map_of_mem hi)
      methods := fun m hm => hsignature m hm _ (by simp [signatureNames])
      results := fun m hm => hsignature m hm _ (by simp [signatureNames])
      parameters := fun m hm t ht =>
        hsignature m hm _ <| List.mem_append_right _ (List.mem_map_of_mem ht) }
  · intro h name hname
    rcases List.mem_append.mp hname with hheader | hsignature
    · exact sum_breaks_iff.mp ((breaks_headerNames c).symm.trans h.header) name hheader
    · obtain ⟨m, hm, hname⟩ := List.mem_flatMap.mp hsignature
      exact sum_breaks_iff.mp ((breaks_signatureNames m).symm.trans (h.signature hm)) name hname

/-- A class with names for all parameters takes the lines of its shape, and those that its
names add. -/
theorem feedCount_script {printer : Printer} {c : ClassDeclaration}
    (hwidth : ∀ m ∈ c.methods, m.type.parameters.length ≤ 26) :
    Script.feedCount (printer.script c) = shapeLines printer.formatter c + nameBreaks c := by
  have hfields : ((c.fields.map field).map Script.feedCount).sum = c.fields.length := by
    rw [List.map_map]
    apply sum_map_one
    intro f _
    show (field f).feedCount = 1
    rw [(field_spells f).feedCount, breaks_fieldText]
  have hmethods : ((c.methods.map (method printer.formatter)).map Script.feedCount).sum
      = (c.methods.map (methodShape printer.formatter)).sum
        + (c.methods.map fun m => breaks (signatureText m)).sum := by
    rw [List.map_map, ← List.sum_map_add]
    exact congrArg List.sum (List.map_congr_left fun m hm => feedCount_method _ (hwidth m hm))
  have hclosing : Script.feedCount (Script.line "\x7d") = 1 := rfl
  have hindent : Script.feedCount [.ok .indent] = 0 := rfl
  have hunindent : Script.feedCount [.ok .unindent] = 0 := rfl
  rw [Printer.script, feedCount_append, feedCount_append, feedCount_append, feedCount_append,
    (header_spells c).feedCount, feedCount_separated, List.map_append, List.sum_append,
    List.length_append, List.length_map, List.length_map, hfields, hmethods, hclosing, hindent,
    hunindent, nameBreaks_eq, shapeLines]
  omega

/-- A printer that gives a text has run its script to the end. -/
theorem run_of_print {printer : Printer} {c : ClassDeclaration} {text : String}
    (h : printer.print c = .ok text) :
    ∃ final, run (printer.script c) (Indenter.ofSink printer.indent "") = (.ok (), final)
      ∧ final.sink = text := by
  rw [Printer.print] at h
  cases hrun : run (printer.script c) (Indenter.ofSink printer.indent "") with
  | mk result final =>
    rw [hrun] at h
    cases result with
    | error fault => cases h
    | ok done =>
      cases h
      exact ⟨final, rfl, rfl⟩

/-- The text of a class ends with the line of its closing brace. -/
theorem ends_of_print {printer : Printer} {c : ClassDeclaration} {text : String}
    (h : printer.print c = .ok text) : ∃ front, text = front ++ "\x7d\n" := by
  obtain ⟨final, hrun, rfl⟩ := run_of_print h
  exact ends_of_run hrun

/-- A printed class has the lines of its shape, and one more for every break in a name. -/
private theorem lineCount_of_print {printer : Printer} (hindent : breaks printer.indent = 0)
    {c : ClassDeclaration} {text : String} (h : printer.print c = .ok text) :
    lineCount text = shapeLines printer.formatter c + nameBreaks c := by
  obtain ⟨front, hends⟩ := ends_of_print h
  have hfeed : text = front ++ "\x7d" ++ "\n" := by
    rw [hends, String.append_assoc]
    rfl
  obtain ⟨final, hrun, rfl⟩ := run_of_print h
  have hunit : breaks (Indenter.ofSink printer.indent "").unit = 0 := hindent
  have hbreaks := breaks_run hunit hrun
  rw [lineCount_of_ends hfeed, hbreaks, feedCount_script (narrow_of_print h)]
  exact Nat.zero_add _

/-- **The number of lines of a listing** is the one of its shape and the line feeds in the
names of its header and signatures, so the shape alone fixes it exactly if these hold none.
Fields, instructions and their constants add nothing. -/
theorem lineCount_print {c : ClassDeclaration} {text : String}
    (h : Printer.standard.print c = .ok text) :
    lineCount text = shapeLines Formatter.standard c + nameBreaks c
      ∧ (lineCount text = shapeLines Formatter.standard c ↔ NamesUnbroken c) := by
  have hcount : lineCount text = shapeLines Formatter.standard c + nameBreaks c :=
    lineCount_of_print (show breaks Printer.standard.indent = 0 from rfl) h
  refine ⟨hcount, ?_⟩
  rw [hcount, ← nameBreaks_eq_zero]
  omega

/-- The class `greeter` with line feeds in a field's name and type and in its value, and a
method whose parameter has a type with a line feed in its name. -/
def brokenParameter : ClassDeclaration :=
  { greeter with
    interfaces := []
    fields := [⟨.truncate _ 0x8, ⟨"x\ny", rfl⟩, .ref (.object ⟨"a/T\nU", rfl⟩),
      some (.string "a\nb")⟩]
    methods := greeter.methods.map fun m =>
      { m with
        type := ⟨[.ref (.object ⟨"a/T\nU", rfl⟩)], none⟩
        instructions := [.label ⟨0⟩] } }

/-- Only the parameter adds a line. -/
theorem brokenParameter_adds_line :
    ∃ text, Printer.standard.print brokenParameter = .ok text
      ∧ lineCount text = shapeLines Formatter.standard brokenParameter + 1
      ∧ ¬ NamesUnbroken brokenParameter := by
  obtain ⟨text, hprint⟩ := exists_print .standard (c := brokenParameter) rfl
  obtain ⟨hcount, hshape⟩ := lineCount_print hprint
  have hbreaks : nameBreaks brokenParameter = 1 := rfl
  rw [hbreaks] at hcount
  refine ⟨text, hprint, hcount, ?_⟩
  rw [← hshape, hcount]
  omega

/-- A stored class that is called `A`, line feed, `B`. -/
def storedBrokenName : Bytes :=
  [0xCA, 0xFE, 0xBA, 0xBE, 0, 0, 0, 52, 0, 3, 1, 0, 3, 0x41, 0x0A, 0x42, 7, 0, 1, 0, 0x20, 0, 2,
    0, 0, 0, 0, 0, 0, 0, 0, 0, 0]

/-- The same class, read. -/
def brokenName : ClassDeclaration where
  flags := .truncate _ 0x20
  name := ⟨"A\nB", rfl⟩
  superclass := none
  interfaces := []
  fields := []
  methods := []

/-- A class can break its own header: by its shape this one has two lines. -/
theorem brokenName_adds_line :
    ClassDeclaration.parse storedBrokenName = .ok brokenName
      ∧ Printer.standard.print brokenName = .ok "class A\nB \x7b\n\x7d\n"
      ∧ lineCount "class A\nB \x7b\n\x7d\n" = 3
      ∧ shapeLines Formatter.standard brokenName = 2 := by
  have hheader : headerText brokenName = "class A\nB \x7b" := by decide
  have hadds : Adds (Printer.standard.script brokenName) 0 fun unit =>
      indentedLine unit 0 (headerText brokenName) ++ "" ++ renderLines unit [⟨0, "\x7d"⟩] := by
    rw [script_eq]
    exact (((header_spells brokenName).adds 0).append (adds_nil 1).nested).append
      (closing_writes 0)
  have htext : indentedLine Printer.standard.indent 0 (headerText brokenName) ++ ""
      ++ renderLines Printer.standard.indent [⟨0, "\x7d"⟩] = "class A\nB \x7b\n\x7d\n" := by
    rw [hheader]
    decide
  refine ⟨rfl, ?_, rfl, rfl⟩
  rw [print_of_adds hadds, htext]

end Listing

end Classdesk
