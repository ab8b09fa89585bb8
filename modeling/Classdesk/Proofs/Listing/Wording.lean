import Classdesk.Proofs.Listing.Indentation
import Mathlib.Algebra.BigOperators.Group.List.Basic
import Mathlib.Algebra.GroupWithZero.Nat

/-!
# The lines of a listing, word by word

A printer writes a line in pieces: modifiers, names and punctuation one after the other. Here
is what the pieces of each kind of line come to, as one text (`headerText`, `fieldText`,
`signatureText`), and where line feeds can be in it. The names of classes and methods and
the types in a signature go into their lines as they are. A field and an instruction go
through `Text.onOneLine`, so nothing they hold can break their line:

> `breaks_fieldText`: `breaks (fieldText f) = 0`
> `breaks_signatureText`: a signature has the line feeds of its name and its types
-/

namespace Classdesk

/-! ## Line feeds in a text -/

/-- How many line feeds a text holds. -/
def breaks (s : String) : Nat := s.toList.count '\n'

@[simp] theorem breaks_append (a b : String) : breaks (a ++ b) = breaks a + breaks b := by
  rw [breaks, String.toList_append, List.count_append]
  rfl

theorem breaks_eq_zero {s : String} : breaks s = 0 ↔ '\n' ∉ s.toList := List.count_eq_zero

/-- Joined pieces break as often as the pieces together. -/
theorem breaks_join (pieces : List String) :
    breaks (String.join pieces) = (pieces.map breaks).sum := by
  induction pieces with
  | nil => rfl
  | cons piece pieces ih => rw [String.join_cons, breaks_append, ih, List.map_cons, List.sum_cons]

theorem join_singleton (a : String) : String.join [a] = a := by
  rw [String.join_cons, String.join_nil, String.append_empty]

private theorem join_pair (a b : String) : String.join [a, b] = a ++ b := by
  rw [String.join_cons, join_singleton]

private theorem breaks_intercalate {sep : String} (hsep : breaks sep = 0) (pieces : List String) :
    breaks (sep.intercalate pieces) = (pieces.map breaks).sum := by
  induction pieces with
  | nil => rfl
  | cons piece pieces ih =>
    cases pieces with
    | nil => simp [String.intercalate_singleton]
    | cons next others =>
      rw [String.intercalate_cons_cons, breaks_append, breaks_append, ih, hsep, Nat.add_zero]
      exact List.sum_cons.symm

namespace Text

/-- Line feeds are replaced one by one. -/
theorem onOneLine_append (a b : String) : onOneLine (a ++ b) = onOneLine a ++ onOneLine b := by
  simp only [onOneLine, replaceChar, String.toList_append, List.flatMap_append,
    String.ofList_append]

/-- A text on one line has no line feeds. -/
@[simp] theorem breaks_onOneLine (s : String) : breaks (onOneLine s) = 0 := by
  rw [breaks_eq_zero, onOneLine, String.toList_ofList, replaceChar]
  intro hmem
  obtain ⟨c, -, hc⟩ := List.mem_flatMap.mp hmem
  by_cases hbreak : c = '\n'
  · rw [if_pos hbreak] at hc
    exact absurd hc (by decide)
  · rw [if_neg hbreak] at hc
    exact hbreak (List.mem_singleton.mp hc).symm

end Text

namespace Listing

/-! ## The text of each line -/

/-- Modifiers with a space behind each. -/
def modifierText (bits : UInt16) (excluded : List Modifier) : String :=
  String.join ((Modifier.ofBits bits excluded).map fun m => m.keyword ++ " ")

/-- What a class extends, unless that is the root of all classes. -/
def extendedText (c : ClassDeclaration) : String :=
  match c.superclass with
  | some superclass => if superclass.isObject then "" else " extends " ++ superclass.text
  | none => ""

/-- What a class implements. -/
def implementedText (c : ClassDeclaration) : String :=
  match c.interfaces with
  | [] => ""
  | names => " implements " ++ ", ".intercalate (names.map ClassName.text)

/-- The first line of a class. -/
def headerText (c : ClassDeclaration) : String :=
  modifierText c.flags.bits [.synchronized] ++ "class " ++ c.name.text ++ extendedText c
    ++ implementedText c ++ " \x7b"

/-- The initial value of a field, if it has one. -/
def valueText (f : FieldDeclaration) : String :=
  match f.value with
  | some value => " = " ++ value.text
  | none => ""

/-- The line of a field. -/
def fieldText (f : FieldDeclaration) : String :=
  modifierText f.flags.bits []
    ++ Text.onOneLine (f.type.javaName ++ " " ++ f.name.text ++ valueText f ++ ";")

/-- The name of the `i`-th parameter. -/
def letter (i : Nat) : Char := Char.ofNat ('a'.toNat + i)

/-- The parameters of a method, each with its name. -/
def parameterTexts (types : List FieldType) : List String :=
  types.mapIdx fun i type => type.javaName ++ " " ++ String.singleton (letter i)

/-- The first line of a method. -/
def signatureText (m : MethodDeclaration) : String :=
  modifierText m.flags.bits [] ++ m.type.javaResult ++ " " ++ m.name.text ++ "("
    ++ ", ".intercalate (parameterTexts m.type.parameters) ++ ") \x7b"

/-! ## Line feeds in each line -/

private theorem breaks_modifierText (bits : UInt16) (excluded : List Modifier) :
    breaks (modifierText bits excluded) = 0 := by
  rw [modifierText, breaks_join, List.sum_eq_zero]
  intro n hn
  obtain ⟨piece, hpiece, rfl⟩ := List.mem_map.mp hn
  obtain ⟨m, -, rfl⟩ := List.mem_map.mp hpiece
  cases m <;> rfl

private theorem breaks_extendedText (c : ClassDeclaration) :
    breaks (extendedText c) = (c.superclass.toList.map fun s => breaks s.text).sum := by
  unfold extendedText
  cases c.superclass with
  | none => rfl
  | some superclass =>
    show breaks (if superclass.isObject = true then _ else _) = breaks superclass.text
    by_cases hobject : superclass.isObject = true
    · -- The name that is left out has no line feed.
      have htext : superclass.text = "java/lang/Object" := by
        simpa [ClassName.isObject] using hobject
      rw [if_pos hobject, htext]
      rfl
    · rw [if_neg hobject, breaks_append]
      exact Nat.zero_add _

private theorem breaks_implementedText (c : ClassDeclaration) :
    breaks (implementedText c) = (c.interfaces.map fun i => breaks i.text).sum := by
  unfold implementedText
  cases c.interfaces with
  | nil => rfl
  | cons first others =>
    show breaks (" implements " ++ ", ".intercalate ((first :: others).map ClassName.text)) = _
    rw [breaks_append, breaks_intercalate rfl, List.map_map]
    exact Nat.zero_add _

/-- The header breaks where the names of the class, of its superclass and of its interfaces do. -/
theorem breaks_headerText (c : ClassDeclaration) :
    breaks (headerText c) = breaks c.name.text
      + (c.superclass.toList.map fun s => breaks s.text).sum
      + (c.interfaces.map fun i => breaks i.text).sum := by
  have hclass : breaks "class " = 0 := rfl
  have hopen : breaks " \x7b" = 0 := rfl
  simp only [headerText, breaks_append, breaks_modifierText, breaks_extendedText,
    breaks_implementedText, hclass, hopen, Nat.zero_add, Nat.add_zero]

/-- The line of a field never breaks. -/
theorem breaks_fieldText (f : FieldDeclaration) : breaks (fieldText f) = 0 := by
  rw [fieldText, breaks_append, breaks_modifierText, Text.breaks_onOneLine]

private theorem letter_ne_break (i : Nat) : letter i ≠ '\n' := by
  intro heq
  have hnat : (letter i).toNat = 10 := congrArg Char.toNat heq
  have ha : 'a'.toNat = 97 := rfl
  unfold letter at hnat
  by_cases hvalid : ('a'.toNat + i).isValidChar
  · have hletter : (Char.ofNat ('a'.toNat + i)).toNat = 'a'.toNat + i := by
      rw [Char.ofNat, dif_pos hvalid]
      rfl
    omega
  · rw [Char.ofNat, dif_neg hvalid] at hnat
    cases hnat

private theorem breaks_parameter (type : FieldType) (i : Nat) :
    breaks (type.javaName ++ " " ++ String.singleton (letter i)) = breaks type.javaName := by
  have hspace : breaks " " = 0 := rfl
  have hletter : breaks (String.singleton (letter i)) = 0 := by
    rw [breaks_eq_zero, String.toList_singleton, List.mem_singleton]
    exact (letter_ne_break i).symm
  rw [breaks_append, breaks_append, hspace, hletter, Nat.add_zero]

private theorem breaks_parameterTexts (types : List FieldType) :
    (parameterTexts types).map breaks = types.map fun t => breaks t.javaName := by
  apply List.ext_getElem?
  intro i
  rw [parameterTexts, List.getElem?_map, List.getElem?_mapIdx, List.getElem?_map]
  cases types[i]? with
  | none => rfl
  | some type => exact congrArg some (breaks_parameter type i)

/-- A signature breaks where the names in its types and its own name do. -/
theorem breaks_signatureText (m : MethodDeclaration) :
    breaks (signatureText m) = breaks m.type.javaResult + breaks m.name.text
      + (m.type.parameters.map fun t => breaks t.javaName).sum := by
  have hspace : breaks " " = 0 := rfl
  have hleft : breaks "(" = 0 := rfl
  have hright : breaks ") \x7b" = 0 := rfl
  have hsep : breaks ", " = 0 := rfl
  simp only [signatureText, breaks_append, breaks_modifierText, breaks_intercalate hsep,
    breaks_parameterTexts, hspace, hleft, hright, Nat.zero_add, Nat.add_zero]

/-! ## Scripts that write a line in pieces -/

/-- A script that writes one line with this text, in pieces. -/
def Script.SpellsLine (script : Script) (text : String) : Prop :=
  ∃ pieces last, script = texts pieces ++ line last ∧ String.join pieces ++ last = text

/-- A script that goes on with a line by this text, in pieces. -/
def Script.Spells (script : Script) (text : String) : Prop :=
  ∃ pieces, script = texts pieces ∧ String.join pieces = text

namespace Script

private theorem spells_texts (pieces : List String) : Spells (texts pieces) (String.join pieces) :=
  ⟨pieces, rfl, rfl⟩

private theorem texts_append (pieces others : List String) :
    texts (pieces ++ others) = texts pieces ++ texts others := List.map_append

/-- Spelled texts stand one behind the other. -/
theorem Spells.append {a b : Script} {s t : String} (ha : Spells a s) (hb : Spells b t) :
    Spells (a ++ b) (s ++ t) := by
  obtain ⟨pieces, ha, hs⟩ := ha
  obtain ⟨others, hb, ht⟩ := hb
  refine ⟨pieces ++ others, ?_, ?_⟩
  · rw [ha, hb, texts_append]
  · rw [String.join_append, hs, ht]

private theorem spells_flatMap {α : Type} {as : List α} {script : α → Script} {text : α → String}
    (h : ∀ a ∈ as, Spells (script a) (text a)) :
    Spells (as.flatMap script) (String.join (as.map text)) := by
  induction as with
  | nil => exact spells_texts []
  | cons a as ih =>
    rw [List.flatMap_cons, List.map_cons, String.join_cons]
    exact (h a (List.mem_cons_self ..)).append
      (ih fun b hb => h b (List.mem_cons_of_mem _ hb))

/-- A spelled text and the end of its line. -/
theorem Spells.line {script : Script} {s : String} (h : Spells script s) (last : String) :
    SpellsLine (script ++ Script.line last) (s ++ last) := by
  obtain ⟨pieces, hscript, hs⟩ := h
  exact ⟨pieces, last, by rw [hscript], by rw [hs]⟩

end Script

open Script

/-- Texts with a separator: the first one, then the others with a separator each. -/
theorem intercalate_cons (sep first : String) (others : List String) :
    sep.intercalate (first :: others) = first ++ String.join (others.map (sep ++ ·)) := by
  induction others generalizing first with
  | nil => rw [String.intercalate_singleton, List.map_nil, String.join_nil, String.append_empty]
  | cons next others ih =>
    rw [String.intercalate_cons_cons, ih, List.map_cons, String.join_cons, String.append_assoc,
      String.append_assoc]

private theorem modifiers_spells (bits : UInt16) (excluded : List Modifier) :
    Spells (modifiers bits excluded) (modifierText bits excluded) := by
  apply spells_flatMap
  intro m _
  have h := spells_texts [m.keyword, " "]
  rwa [join_pair] at h

/-- Spelled texts with a separator between them. -/
private theorem separated_spells {sep : Script} {s : String} (hsep : Spells sep s) {α : Type}
    {as : List α} {script : α → Script} {text : α → String}
    (h : ∀ a ∈ as, Spells (script a) (text a)) :
    Spells (separated sep (as.map script)) (s.intercalate (as.map text)) := by
  cases as with
  | nil => exact spells_texts []
  | cons a as =>
    rw [List.map_cons, List.map_cons, separated, intercalate_cons, List.map_map]
    refine (h a (List.mem_cons_self ..)).append ?_
    rw [List.flatMap_map]
    exact spells_flatMap fun b hb => hsep.append (h b (List.mem_cons_of_mem _ hb))

private theorem extended_spells (c : ClassDeclaration) :
    Spells (texts (match c.superclass with
      | some superclass => if superclass.isObject then [] else [" extends ", superclass.text]
      | none => [])) (extendedText c) := by
  unfold extendedText
  cases c.superclass with
  | none => exact spells_texts []
  | some superclass =>
    show Spells (texts (if superclass.isObject = true then _ else _)) (if _ then _ else _)
    by_cases hobject : superclass.isObject = true
    · rw [if_pos hobject, if_pos hobject]
      exact spells_texts []
    · rw [if_neg hobject, if_neg hobject]
      have h := spells_texts [" extends ", superclass.text]
      rwa [join_pair] at h

/-- Names behind the first interface have a comma in front. -/
theorem join_others (names : List ClassName) (k : Nat) :
    String.join ((names.zipIdx (k + 1)).flatMap fun (name, i) =>
        [if i = 0 then " implements " else ", ", name.text])
      = String.join ((names.map ClassName.text).map (", " ++ ·)) := by
  induction names generalizing k with
  | nil => rfl
  | cons name names ih =>
    rw [List.zipIdx_cons, List.flatMap_cons, String.join_append, ih, List.map_cons,
      List.map_cons]
    show String.join [if k + 1 = 0 then " implements " else ", ", name.text] ++ _ = _
    rw [if_neg (Nat.succ_ne_zero k), join_pair, String.join_cons]

private theorem implemented_spells (c : ClassDeclaration) :
    Spells (texts (c.interfaces.zipIdx.flatMap fun (interface, i) =>
      [if i = 0 then " implements " else ", ", interface.text])) (implementedText c) := by
  unfold implementedText
  refine ⟨_, rfl, ?_⟩
  cases c.interfaces with
  | nil => rfl
  | cons first others =>
    rw [List.zipIdx_cons, List.flatMap_cons, String.join_append, join_others]
    show String.join [" implements ", first.text] ++ _
      = " implements " ++ ", ".intercalate (first.text :: others.map ClassName.text)
    rw [intercalate_cons, join_pair, String.append_assoc]

/-- The header of a class is one line. -/
theorem header_spells (c : ClassDeclaration) : SpellsLine (header c) (headerText c) := by
  have hname := spells_texts ["class ", c.name.text]
  rw [join_pair] at hname
  have h := ((((modifiers_spells c.flags.bits [.synchronized]).append hname).append
    (extended_spells c)).append (implemented_spells c)).line " \x7b"
  rw [← String.append_assoc] at h
  unfold header
  simp only [texts_append, ← List.append_assoc]
  exact h

/-- A field is one line, with its value put on it. -/
theorem field_spells (f : FieldDeclaration) : SpellsLine (field f) (fieldText f) :=
  (modifiers_spells f.flags.bits []).line _

/-- An instruction is one line. -/
theorem instruction_spells (text : String) :
    SpellsLine (texts ["."] ++ Script.line (Text.onOneLine text))
      ("." ++ Text.onOneLine text) := by
  have h := (spells_texts ["."]).line (Text.onOneLine text)
  rwa [join_singleton] at h

/-- Up to 26 parameters are named by the letters in order. -/
theorem zip_parameterNames {types : List FieldType} (h : types.length ≤ 26) :
    types.zip parameterNames = types.mapIdx fun i type => (type, letter i) := by
  have hletters : ∀ i : Fin 26, parameterNames[i.1]? = some (letter i.1) := by decide
  apply List.ext_getElem?
  intro i
  rw [List.getElem?_mapIdx]
  cases htype : types[i]? with
  | none =>
    have hlen := List.getElem?_eq_none_iff.mp htype
    rw [List.getElem?_eq_none (by rw [List.length_zip]; omega)]
    rfl
  | some type =>
    obtain ⟨hlt, -⟩ := List.getElem?_eq_some_iff.mp htype
    exact List.getElem?_zip_eq_some.mpr ⟨htype, hletters ⟨i, by omega⟩⟩

/-- With a letter for each, the parameters are spelled with commas between them. -/
private theorem parameters_spells {types : List FieldType} (h : types.length ≤ 26) :
    Spells (parameters types) (", ".intercalate (parameterTexts types)) := by
  have hsep := spells_texts [", "]
  rw [join_singleton] at hsep
  have hparts : parameterTexts types
      = (types.zip parameterNames).map fun parameter =>
          parameter.1.javaName ++ " " ++ String.singleton parameter.2 := by
    apply List.ext_getElem?
    intro i
    rw [zip_parameterNames h, parameterTexts, List.getElem?_mapIdx, List.getElem?_map,
      List.getElem?_mapIdx, Option.map_map]
    rfl
  rw [hparts]
  refine separated_spells hsep fun parameter _ => ?_
  have hone := spells_texts [parameter.1.javaName, " ", String.singleton parameter.2]
  rwa [String.join_cons, join_pair, ← String.append_assoc] at hone

/-- The part of a method's script up to the end of its first line. -/
def signature (m : MethodDeclaration) : Script :=
  modifiers m.flags.bits [] ++ texts [m.type.javaResult, " ", m.name.text, "("] ++
    parameters m.type.parameters ++ Script.line ") \x7b"

/-- A signature with a letter for every parameter is one line. -/
theorem signature_spells {m : MethodDeclaration} (h : m.type.parameters.length ≤ 26) :
    SpellsLine (signature m) (signatureText m) := by
  have hname := spells_texts [m.type.javaResult, " ", m.name.text, "("]
  rw [String.join_cons, String.join_cons, join_pair] at hname
  have h := (((modifiers_spells m.flags.bits []).append hname).append
    (parameters_spells h)).line ") \x7b"
  rwa [show modifierText m.flags.bits [] ++ (m.type.javaResult ++ (" " ++ (m.name.text ++ "(")))
      = modifierText m.flags.bits [] ++ m.type.javaResult ++ " " ++ m.name.text ++ "(" from by
    simp only [String.append_assoc]] at h

end Listing

end Classdesk
