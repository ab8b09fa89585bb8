import Classdesk.Proofs.Listing.Layout
import Classdesk.Proofs.Text.Replacing

/-!
# String constants in a listing

A string constant goes into its line in two rewrites. `Text.quote` escapes the quotes in it
and nothing else, and the line as a whole goes through `Text.onOneLine`, which writes a line
feed as a backslash and an `n`. Backslashes are left alone by both, so a listing may look as
if many strings could stand behind one line. It is not so:

> `unquote_quote`: quoting alone loses nothing. Every backslash in front of a quote, taken
> from the left, was put there.

> `string_lines_eq_iff`: two strings give the same line, as the constant of an instruction or
> as the value of a field, exactly if they are the same once their line feeds are written as
> backslash and `n`. So do the printed classes around these lines.

The two rewrites touch different characters and can be made in either order
(`onOneLine_quote`), so the second claim follows from the first. What is printed around a line
is the same whatever the line is (`DifferInLine`), even where a name breaks lines of its own,
so two classes that differ in one line are printed alike exactly if the lines are.
-/

namespace Classdesk

namespace Text

/-! ## Quotes -/

/-- The text with a quote for every backslash and quote, taken from the left. -/
def unescapeQuotes : List Char → List Char
  | [] => []
  | '\\' :: '\"' :: cs => '\"' :: unescapeQuotes cs
  | c :: cs => c :: unescapeQuotes cs

/-- The text between the outer quotes, with its own quotes unescaped. -/
def unquote (text : String) : String :=
  String.ofList (unescapeQuotes text.toList.tail.dropLast)

/-- A backslash stays unless a quote follows. -/
theorem unescapeQuotes_cons {c : Char} {cs : List Char} (h : c = '\\' → cs.head? ≠ some '\"') :
    unescapeQuotes (c :: cs) = c :: unescapeQuotes cs := by
  rw [unescapeQuotes]
  intro rest hc hcs
  exact h hc (by rw [hcs]; rfl)

/-- No escaped text starts with a quote. -/
theorem head?_escaped (cs : List Char) :
    (replaceChar '\"' ['\\', '\"'] cs).head? ≠ some '\"' := by
  cases cs with
  | nil => simp
  | cons c cs =>
    by_cases hc : c = '\"'
    · rw [hc, replaceChar_cons_self]
      simp
    · rw [replaceChar_cons_of_ne hc]
      simpa using hc

/-- Unescaping undoes escaping. -/
private theorem unescapeQuotes_escaped (cs : List Char) :
    unescapeQuotes (replaceChar '\"' ['\\', '\"'] cs) = cs := by
  induction cs with
  | nil => rfl
  | cons c cs ih =>
    by_cases hc : c = '\"'
    · rw [hc, replaceChar_cons_self]
      exact congrArg ('\"' :: ·) ih
    · rw [replaceChar_cons_of_ne hc, unescapeQuotes_cons fun _ => head?_escaped cs, ih]

/-- Quoting can be undone. -/
theorem unquote_quote (text : String) : unquote (quote text) = text := by
  unfold unquote quote
  rw [String.toList_ofList, List.cons_append, List.tail_cons, List.dropLast_concat,
    unescapeQuotes_escaped, String.ofList_toList]

/-- Different strings are quoted differently. -/
theorem quote_injective : Function.Injective quote :=
  Function.LeftInverse.injective unquote_quote

/-! ## Quotes and line feeds -/

/-- A quoted text is put on one line by putting the text on one line. -/
theorem onOneLine_quote (text : String) : onOneLine (quote text) = quote (onOneLine text) := by
  have hquote : '\"' ≠ '\n' := by decide
  have hlast : replaceChar '\n' ['\\', 'n'] ['\"'] = ['\"'] :=
    replaceChar_of_not_mem (by decide)
  unfold onOneLine quote
  rw [String.toList_ofList, String.toList_ofList, replaceChar_append, hlast,
    replaceChar_cons_of_ne hquote, replaceChar_comm hquote.symm (by decide) (by decide)]

end Text

namespace Listing

/-! ## Lines that hold a string -/

/-- A line around a quoted string is fixed by the string on one line. -/
theorem quoted_line_eq_iff (front back s t : String) :
    Text.onOneLine (front ++ Text.quote s ++ back) = Text.onOneLine (front ++ Text.quote t ++ back)
      ↔ Text.onOneLine s = Text.onOneLine t := by
  simp only [Text.onOneLine_append, Text.onOneLine_quote]
  rw [String.append_left_inj, String.append_right_inj]
  exact Text.quote_injective.eq_iff

/-- The opcodes of the instructions that push a constant. -/
def loadOpcodes : List UInt8 := [0x12, 0x13, 0x14]

/-- A pushed string stands behind the mnemonic, which does not depend on it. -/
theorem text_of_string {opcode : UInt8} (h : opcode ∈ loadOpcodes) :
    ∃ front, ∀ s, Formatter.standard.text (.constant opcode (.string s))
      = some (front ++ Text.quote s) := by
  have hnamed : ∀ opcode ∈ loadOpcodes, (Opcode.mnemonic? opcode).isSome = true := by
    decide +kernel
  obtain ⟨mnemonic, hmnemonic⟩ := Option.isSome_iff_exists.mp (hnamed opcode h)
  refine ⟨mnemonic ++ " ", fun s => ?_⟩
  have hoperands : Instruction.withOperands (.constant opcode (.string s))
      = some (mnemonic ++ " " ++ Text.quote s) := by
    have hname : (.constant opcode (.string s) : Instruction Label).mnemonic? = some mnemonic :=
      hmnemonic
    rw [Instruction.withOperands, hname]
    rfl
  simp [Formatter.text, Formatter.format, Formatter.standard, Instruction.kind, hoperands]

/-- Two methods that differ in one listed instruction differ in its line. -/
theorem methodLines_eq_iff {formatter : Formatter} {i j : Instruction Label} {x y : String}
    (hi : formatter.text i = some x) (hj : formatter.text j = some y) (m : MethodDeclaration)
    (before after : List (Instruction Label)) :
    methodLines formatter { m with instructions := before ++ i :: after }
        = methodLines formatter { m with instructions := before ++ j :: after }
      ↔ Text.onOneLine x = Text.onOneLine y := by
  have hsignature : signatureText { m with instructions := before ++ i :: after }
      = signatureText { m with instructions := before ++ j :: after } := rfl
  unfold methodLines
  rw [hsignature]
  simp only [List.filterMap_append, List.filterMap_cons_some hi, List.filterMap_cons_some hj,
    List.map_append, List.map_cons, List.append_assoc, List.append_cancel_left_eq,
    List.cons_append, List.cons.injEq, and_true, Line.mk.injEq, true_and, String.append_right_inj]

/-! ## What is printed around a line -/

/-- Scripts that differ in one line: what they write around it is the same for all of them. -/
def DifferInLine {α : Type} (script : α → Script) (depth : Nat) (line : α → Line) : Prop :=
  ∃ front back : String → String, ∀ a,
    Adds (script a) depth fun unit => front unit ++ (line a).render unit ++ back unit

section DifferInLine

variable {α : Type} {script : α → Script} {depth : Nat} {line : α → Line}

/-- Nothing stands around a line of its own. -/
private theorem differInLine_of_writes (h : ∀ a, Writes (script a) depth [line a]) :
    DifferInLine script depth line := by
  refine ⟨fun _ => "", fun _ => "", fun a => ?_⟩
  have hline := h a
  simp only [Writes, renderLines, List.map_cons, List.map_nil, join_singleton] at hline
  simp only [String.empty_append, String.append_empty]
  exact hline

/-- Between scripts that do not depend on the line. -/
theorem DifferInLine.between (h : DifferInLine script depth line) {before after : Script}
    (hbefore : ∃ f, Adds before depth f) (hafter : ∃ f, Adds after depth f) :
    DifferInLine (fun a => before ++ script a ++ after) depth line := by
  obtain ⟨front, back, h⟩ := h
  obtain ⟨f, hf⟩ := hbefore
  obtain ⟨g, hg⟩ := hafter
  refine ⟨fun unit => f unit ++ front unit, fun unit => back unit ++ g unit, fun a => ?_⟩
  have hall := (hf.append (h a)).append hg
  simp only [← String.append_assoc] at hall ⊢
  exact hall

/-- One level further in. -/
theorem DifferInLine.nested (h : DifferInLine script (depth + 1) line) :
    DifferInLine (fun a => [.ok .indent] ++ script a ++ [.ok .unindent]) depth line := by
  obtain ⟨front, back, h⟩ := h
  exact ⟨front, back, fun a => (h a).nested⟩

end DifferInLine

private theorem adds_flatMap {α : Type} {as : List α} {script : α → Script} {depth : Nat}
    (h : ∀ a ∈ as, ∃ f, Adds (script a) depth f) : ∃ f, Adds (as.flatMap script) depth f := by
  induction as with
  | nil => exact ⟨_, adds_nil depth⟩
  | cons a as ih =>
    obtain ⟨f, hf⟩ := h a List.mem_cons_self
    obtain ⟨g, hg⟩ := ih fun b hb => h b (List.mem_cons_of_mem _ hb)
    exact ⟨_, hf.append hg⟩

/-- A method that can be printed adds some text, whatever its names are. -/
private theorem method_adds (formatter : Formatter) {m : MethodDeclaration}
    (hwidth : m.type.parameters.length ≤ 26) : ∃ f, Adds (method formatter m) 1 f := by
  rw [method_eq formatter hwidth]
  have hlines : ∀ text ∈ m.instructions.filterMap formatter.text,
      ∃ f, Adds (Script.texts ["."] ++ Script.line (Text.onOneLine text)) 2 f :=
    fun text _ => ⟨_, (instruction_spells text).adds 2⟩
  obtain ⟨f, hf⟩ := adds_flatMap hlines
  exact ⟨_, (((signature_spells hwidth).adds 1).append hf.nested).append (closing_writes 1)⟩

/-- Around a line between other lines of a method. -/
theorem method_differInLine (formatter : Formatter) {m : MethodDeclaration}
    (hwidth : m.type.parameters.length ≤ 26) {α : Type} {i : α → Instruction Label}
    {text : α → String} (htext : ∀ a, formatter.text (i a) = some (text a))
    (before after : List (Instruction Label)) :
    DifferInLine (fun a => method formatter { m with instructions := before ++ i a :: after }) 1
      fun a => ⟨2, "." ++ Text.onOneLine (text a)⟩ := by
  let line (text : String) : Script := Script.texts ["."] ++ Script.line (Text.onOneLine text)
  let lines (is : List (Instruction Label)) := (is.filterMap formatter.text).flatMap line
  have hlines (is : List (Instruction Label)) : ∃ f, Adds (lines is) 2 f :=
    adds_flatMap fun text _ => ⟨_, (instruction_spells text).adds 2⟩
  have hscript (a : α) : method formatter { m with instructions := before ++ i a :: after }
      = signature m ++ ([.ok .indent] ++ (lines before ++ line (text a) ++ lines after)
        ++ [.ok .unindent]) ++ Script.line "\x7d" := by
    rw [method_eq formatter (m := { m with instructions := before ++ i a :: after }) hwidth]
    simp only [lines, line, List.filterMap_append, List.filterMap_cons_some (htext a),
      List.flatMap_append, List.flatMap_cons, List.append_assoc]
    rfl
  simp only [hscript]
  exact (((differInLine_of_writes fun a => instruction_writes (text a)).between (hlines before)
    (hlines after)).nested).between ⟨_, (signature_spells hwidth).adds 1⟩ ⟨_, closing_writes 1⟩

/-- Around a line in one member of a class. -/
theorem members_differInLine {α : Type} {member : α → Script} {line : α → Line}
    (h : DifferInLine member 1 line) {before after : List Script}
    (hbefore : ∀ other ∈ before, ∃ f, Adds other 1 f)
    (hafter : ∀ other ∈ after, ∃ f, Adds other 1 f) {printer : Printer}
    {place : α → ClassDeclaration} {c : ClassDeclaration}
    (hheader : ∀ a, header (place a) = header c)
    (hmembers : ∀ a, (place a).fields.map field ++ (place a).methods.map (method printer.formatter)
      = before ++ member a :: after) :
    DifferInLine (fun a => printer.script (place a)) 0 line := by
  have hblank := writes_blank 1
  have hseparated (a : α) : separated [.ok .newline] (before ++ member a :: after)
      = before.flatMap (· ++ [.ok .newline]) ++ member a
        ++ after.flatMap ([.ok .newline] ++ ·) := by
    rw [separated_append_cons, separated, List.append_assoc]
  simp only [script_eq, hheader, hmembers, hseparated]
  refine (DifferInLine.nested (h.between (adds_flatMap fun other hother => ?_)
    (adds_flatMap fun other hother => ?_))).between ⟨_, (header_spells c).adds 0⟩
      ⟨_, closing_writes 0⟩
  · obtain ⟨f, hf⟩ := hbefore other hother
    exact ⟨_, hf.append hblank⟩
  · obtain ⟨f, hf⟩ := hafter other hother
    exact ⟨_, Adds.append hblank hf⟩

private theorem Line.render_eq_iff {unit a b : String} {depth : Nat} :
    Line.render unit ⟨depth, a⟩ = Line.render unit ⟨depth, b⟩ ↔ a = b := by
  rw [Line.render, Line.render, String.append_left_inj, String.append_right_inj]

/-- Classes that differ in one line are printed alike exactly if the lines are. -/
theorem DifferInLine.print_eq_iff {α : Type} {printer : Printer} {place : α → ClassDeclaration}
    {line : α → Line} (h : DifferInLine (fun a => printer.script (place a)) 0 line) {a b : α}
    {x y : String} (hx : printer.print (place a) = .ok x) (hy : printer.print (place b) = .ok y) :
    x = y ↔ (line a).render printer.indent = (line b).render printer.indent := by
  obtain ⟨front, back, h⟩ := h
  have hx' : _ = Except.ok x := (print_of_adds (h a)).symm.trans hx
  have hy' : _ = Except.ok y := (print_of_adds (h b)).symm.trans hy
  rw [← Except.ok.inj hx', ← Except.ok.inj hy', String.append_left_inj, String.append_right_inj]

/-- A class with a place for a string, which an instruction pushes or a field starts out with. -/
inductive StringPlace : (String → ClassDeclaration) → Prop
  | pushed {opcode : UInt8} (h : opcode ∈ loadOpcodes) (c : ClassDeclaration)
      (methods others : List MethodDeclaration) (m : MethodDeclaration)
      (before after : List (Instruction Label)) :
      StringPlace fun s => { c with methods := methods
        ++ { m with instructions := before ++ .constant opcode (.string s) :: after } :: others }
  | initial (c : ClassDeclaration) (fields others : List FieldDeclaration) (f : FieldDeclaration) :
      StringPlace fun s =>
        { c with fields := fields ++ { f with value := some (.string s) } :: others }

/-- The line of a field around its value. -/
theorem fieldText_eq_iff (f : FieldDeclaration) (s t : String) :
    fieldText { f with value := some (.string s) } = fieldText { f with value := some (.string t) }
      ↔ Text.onOneLine s = Text.onOneLine t := by
  simp only [fieldText, valueText, FieldValue.text, String.append_right_inj]
  rw [← String.append_assoc, ← String.append_assoc]
  exact quoted_line_eq_iff _ _ s t

/-- The line of an instruction around the string it pushes. -/
theorem pushedText_eq_iff (front s t : String) :
    Text.onOneLine (front ++ Text.quote s) = Text.onOneLine (front ++ Text.quote t)
      ↔ Text.onOneLine s = Text.onOneLine t := by
  have hline := quoted_line_eq_iff front "" s t
  rwa [String.append_empty, String.append_empty] at hline

/-- With names for all parameters, such a class has one line that depends on the string. -/
theorem StringPlace.differInLine {place : String → ClassDeclaration} (h : StringPlace place)
    {sample : String} (hnarrow : ∀ m ∈ (place sample).methods, m.type.parameters.length ≤ 26) :
    ∃ line : String → Line, DifferInLine (fun s => Printer.standard.script (place s)) 0 line
      ∧ ∀ unit s t, (line s).render unit = (line t).render unit
        ↔ Text.onOneLine s = Text.onOneLine t := by
  have hmethods {ms : List MethodDeclaration} (hms : ∀ m ∈ ms, m.type.parameters.length ≤ 26) :
      ∀ script ∈ ms.map (method .standard), ∃ f, Adds script 1 f := by
    intro script hscript
    obtain ⟨m, hm, rfl⟩ := List.mem_map.mp hscript
    exact method_adds .standard (hms m hm)
  have hfields (fs : List FieldDeclaration) : ∀ script ∈ fs.map field, ∃ f, Adds script 1 f := by
    intro script hscript
    obtain ⟨f, -, rfl⟩ := List.mem_map.mp hscript
    exact ⟨_, field_writes f⟩
  cases h with
  | pushed hopcode c methods others m before after =>
    obtain ⟨front, htext⟩ := text_of_string hopcode
    obtain ⟨hbefore, hhere⟩ := List.forall_mem_append.mp hnarrow
    obtain ⟨hwidth, hafter⟩ := List.forall_mem_cons.mp hhere
    have hline := method_differInLine .standard hwidth htext before after
    refine ⟨_, members_differInLine hline (List.forall_mem_append.mpr ⟨hfields c.fields,
      hmethods hbefore⟩) (hmethods hafter) (fun _ => rfl) (fun s => ?_), fun unit s t => ?_⟩
    · rw [List.map_append, List.map_cons, List.append_assoc]
      rfl
    · rw [Line.render_eq_iff, String.append_right_inj]
      exact pushedText_eq_iff front s t
  | initial c fields others f =>
    have hline := differInLine_of_writes fun s : String =>
      field_writes { f with value := some (.string s) }
    refine ⟨_, members_differInLine hline (hfields fields) (List.forall_mem_append.mpr
      ⟨hfields others, hmethods hnarrow⟩) (fun _ => rfl) (fun s => ?_), fun unit s t => ?_⟩
    · rw [List.map_append, List.map_cons, List.append_assoc]
      rfl
    · rw [Line.render_eq_iff]
      exact fieldText_eq_iff f s t

/-- Printed classes are as different as the strings in them. -/
theorem StringPlace.print_eq_iff {place : String → ClassDeclaration} (h : StringPlace place)
    {s t x y : String} (hx : Printer.standard.print (place s) = .ok x)
    (hy : Printer.standard.print (place t) = .ok y) :
    x = y ↔ Text.onOneLine s = Text.onOneLine t := by
  obtain ⟨line, hplace, hline⟩ := h.differInLine (narrow_of_print hx)
  exact (hplace.print_eq_iff hx hy).trans (hline _ s t)

/-- **Printed strings can be told apart up to their line feeds**, behind an instruction and
behind a field: two lines are the same exactly if the strings are, once a line feed is written
as backslash and `n`. The same holds for the listings of two classes that differ only in the
string, as far as they have one. Quoting alone can be undone. -/
theorem string_lines_eq_iff (s t : String) :
    (∀ opcode ∈ loadOpcodes, ∀ (m : MethodDeclaration) (before after : List (Instruction Label)),
      methodLines .standard
          { m with instructions := before ++ .constant opcode (.string s) :: after }
        = methodLines .standard
          { m with instructions := before ++ .constant opcode (.string t) :: after }
      ↔ Text.onOneLine s = Text.onOneLine t)
    ∧ (∀ f : FieldDeclaration,
      fieldText { f with value := some (.string s) }
          = fieldText { f with value := some (.string t) }
        ↔ Text.onOneLine s = Text.onOneLine t)
    ∧ (Text.quote s = Text.quote t ↔ s = t)
    ∧ Text.unquote (Text.quote s) = s
    ∧ ∀ place, StringPlace place → ∀ x y, Printer.standard.print (place s) = .ok x →
      Printer.standard.print (place t) = .ok y → (x = y ↔ Text.onOneLine s = Text.onOneLine t) := by
  refine ⟨?_, fun f => fieldText_eq_iff f s t, Text.quote_injective.eq_iff, Text.unquote_quote s,
    fun place hplace x y hx hy => hplace.print_eq_iff hx hy⟩
  intro opcode hopcode m before after
  obtain ⟨front, htext⟩ := text_of_string hopcode
  exact (methodLines_eq_iff (htext s) (htext t) m before after).trans (pushedText_eq_iff front s t)

/-- A method that pushes one string. -/
def pushing (s : String) : MethodDeclaration where
  flags := .truncate _ 0x1
  name := ⟨"push", rfl⟩
  type := ⟨[], none⟩
  instructions := [.label ⟨0⟩, .constant 0x12 (.string s)]

/-- A class with this method, and with a line feed in its name. -/
def pushingClass (s : String) : ClassDeclaration :=
  { greeter with name := ⟨"a/B\nC", rfl⟩, methods := [pushing s] }

/-- A line feed is taken for backslash and `n`, but a quote not for backslash and quote. -/
theorem pushing_collides :
    methodLines .standard (pushing "a\nb") = methodLines .standard (pushing "a\\nb")
      ∧ methodLines .standard (pushing "\"") ≠ methodLines .standard (pushing "\\\"")
      ∧ (∃ text, Printer.standard.print (pushingClass "a\nb") = .ok text
        ∧ Printer.standard.print (pushingClass "a\\nb") = .ok text)
      ∧ ∃ x y, Printer.standard.print (pushingClass "\"") = .ok x
        ∧ Printer.standard.print (pushingClass "\\\"") = .ok y ∧ x ≠ y := by
  have hlines (s t : String) : methodLines .standard (pushing s) = methodLines .standard (pushing t)
      ↔ Text.onOneLine s = Text.onOneLine t :=
    (string_lines_eq_iff s t).1 0x12 (by decide) (pushing s) [.label ⟨0⟩] []
  have hplace : StringPlace pushingClass :=
    .pushed (by decide) (pushingClass "") [] [] (pushing "") [.label ⟨0⟩] []
  have hprint (s : String) : ∃ text, Printer.standard.print (pushingClass s) = .ok text :=
    exists_print .standard rfl
  refine ⟨(hlines _ _).mpr (by decide), fun h => absurd ((hlines _ _).mp h) (by decide), ?_, ?_⟩
  · obtain ⟨x, hx⟩ := hprint "a\nb"
    obtain ⟨y, hy⟩ := hprint "a\\nb"
    have hxy := ((string_lines_eq_iff _ _).2.2.2.2 _ hplace x y hx hy).mpr (by decide)
    exact ⟨x, hx, hxy ▸ hy⟩
  · obtain ⟨x, hx⟩ := hprint "\""
    obtain ⟨y, hy⟩ := hprint "\\\""
    refine ⟨x, y, hx, hy, fun hxy => ?_⟩
    exact absurd (((string_lines_eq_iff _ _).2.2.2.2 _ hplace x y hx hy).mp hxy) (by decide)

end Listing

end Classdesk
