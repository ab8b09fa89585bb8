import Classdesk.Editor.ClassSource
import Classdesk.Proofs.Name.Segments
import Classdesk.Proofs.Text.Replacing

/-!
# The entries of classes in jars

A class of a jar may be asked for by its dotted name, by that name and `.class`, or by its
internal name. The last two always lead to the entry of the class, the internal name and
`.class`. The dotted name does for most classes:

> `entryName_of_class`: it leads to the entry exactly if its last segment, behind a package,
> does not spell `class`.

A final `.class` is taken for the ending of a file, in capital or small letters, and the
dotted name of such a class ends like this; so it is taken for the class that is named like
the package (`entryName_of_spellsEnding`). In small letters there is no way out, because the
name is the one of that class with the ending as well. In any other spelling, as in
`java.lang.Class`, there is (`javaName_shared_iff`).
-/

namespace Classdesk

/-- Behind a package, the last segment spells `class`, in capital or small letters. -/
def ClassName.SpellsEnding (name : ClassName) : Prop :=
  ∃ package last : List Char, name.text.toList = package ++ '/' :: last
    ∧ last.map Char.toLower = "class".toList

/-- Dots separate packages in source notation, so no name holds one. -/
private theorem ClassName.dot_not_mem (name : ClassName) : '.' ∉ name.text.toList :=
  name.not_mem_text rfl (by decide)

namespace Editor

/-! ## The ending -/

/-- Only letters turn into other characters. -/
theorem toLower_eq_dot {c : Char} (h : c.toLower = '.') : c = '.' := by
  unfold Char.toLower at h
  split at h
  next hupper =>
    exfalso
    have hlow : 65 ≤ c.val.toNat := UInt32.le_iff_toNat_le.mp hupper.1
    have hhigh : c.val.toNat ≤ 90 := UInt32.le_iff_toNat_le.mp hupper.2
    have hval : (c.val.toNat + 32) % 4294967296 = 46 := congrArg (fun d => d.val.toNat) h
    omega
  next => exact h

/-- An ending is a dot and five letters. -/
theorem ending_eq {ending : List Char} (h : ending.map Char.toLower = classEnding) :
    ∃ last, ending = '.' :: last ∧ last.map Char.toLower = "class".toList := by
  obtain ⟨c, last, rfl, hc, hlast⟩ := List.map_eq_cons_iff.mp h
  rw [toLower_eq_dot hc]
  exact ⟨last, rfl, hlast⟩

/-- The letters of the ending are neither dots nor slashes. -/
theorem not_mem_of_toLower {last : List Char} (h : last.map Char.toLower = "class".toList)
    {c : Char} (hc : c.toLower ∉ "class".toList) : c ∉ last := by
  intro hmem
  rw [← h] at hc
  exact hc (List.mem_map_of_mem hmem)

/-- The ending is dropped in any case. -/
private theorem dropClassEnding_append (stem : List Char) {ending : List Char}
    (h : ending.map Char.toLower = classEnding) : dropClassEnding (stem ++ ending) = stem := by
  have hlength : ending.length = classEnding.length := by
    rw [← h, List.length_map]
  unfold dropClassEnding
  rw [List.length_append, hlength, Nat.add_sub_cancel, List.take_left]
  dsimp only
  rw [List.drop_left, if_pos h]

private theorem dropClassEnding_of_ne {cs : List Char}
    (h : ∀ stem ending, cs = stem ++ ending → ending.map Char.toLower ≠ classEnding) :
    dropClassEnding cs = cs := by
  have hsplit : cs = cs.take (cs.length - classEnding.length)
      ++ cs.drop (cs.take (cs.length - classEnding.length)).length := by
    rw [List.length_take, Nat.min_eq_left (Nat.sub_le ..), List.take_append_drop]
  exact if_neg (h _ _ hsplit)

/-! ## Names -/

private theorem toList_javaName (name : ClassName) :
    name.javaName.toList = Text.replaceChar '/' ['.'] name.text.toList :=
  String.toList_ofList

/-- A name of which the internal name is left leads to the entry of the class. -/
theorem entryName_of_drop {name : ClassName} {asked : String}
    (h : Text.replaceChar '.' ['/'] (dropClassEnding asked.toList) = name.text.toList) :
    entryName asked = name.text ++ ".class" := by
  unfold entryName
  rw [h, String.ofList_append, String.ofList_toList]
  rfl

/-- The segments of a dotted name are those of the class. -/
theorem replaceChar_javaName (name : ClassName) :
    Text.replaceChar '.' ['/'] name.javaName.toList = name.text.toList := by
  rw [toList_javaName]
  exact Text.replaceChar_back name.dot_not_mem

/-- By its own name, a class is at its entry. -/
private theorem entryName_text (name : ClassName) :
    entryName name.text = name.text ++ ".class" := by
  -- An ending starts with a dot, and internal names have none.
  have hdrop : dropClassEnding name.text.toList = name.text.toList := by
    apply dropClassEnding_of_ne
    intro stem ending hsplit hending
    obtain ⟨last, rfl, -⟩ := ending_eq hending
    exact name.dot_not_mem (by simp [hsplit])
  apply entryName_of_drop
  rw [hdrop]
  exact Text.replaceChar_of_not_mem name.dot_not_mem

/-- A dotted name with the ending loses it and gets it back. -/
private theorem entryName_javaName_class (name : ClassName) :
    entryName (name.javaName ++ ".class") = name.text ++ ".class" := by
  apply entryName_of_drop
  rw [String.toList_append, dropClassEnding_append _ rfl]
  exact replaceChar_javaName name

/-- A dotted name ends like a file only if the last segment spells the ending. -/
theorem spellsEnding_of_ending {name : ClassName} {stem ending : List Char}
    (hsplit : name.javaName.toList = stem ++ ending)
    (hending : ending.map Char.toLower = classEnding) : name.SpellsEnding := by
  obtain ⟨last, rfl, hlast⟩ := ending_eq hending
  refine ⟨Text.replaceChar '.' ['/'] stem, last, ?_, hlast⟩
  rw [← replaceChar_javaName, hsplit, Text.replaceChar_append, Text.replaceChar_cons_self,
    Text.replaceChar_of_not_mem (not_mem_of_toLower hlast (by decide))]
  rfl

/-- Such a class is taken for the one that is named like its package. -/
theorem entryName_of_spellsEnding {name : ClassName} {package last : List Char}
    (htext : name.text.toList = package ++ '/' :: last)
    (hlast : last.map Char.toLower = "class".toList) :
    entryName name.javaName = String.ofList package ++ ".class" := by
  have hdots : '.' ∉ package := by
    intro hmem
    exact name.dot_not_mem (by simp [htext, hmem])
  have hjava : name.javaName.toList = Text.replaceChar '/' ['.'] package ++ '.' :: last := by
    rw [toList_javaName, htext, Text.replaceChar_append, Text.replaceChar_cons_self,
      Text.replaceChar_of_not_mem (not_mem_of_toLower hlast (by decide))]
    rfl
  have hending : ('.' :: last).map Char.toLower = classEnding := by
    rw [List.map_cons, hlast]
    rfl
  -- What was dropped is the last segment, not a file ending.
  unfold entryName
  rw [hjava, dropClassEnding_append _ hending, Text.replaceChar_back hdots,
    String.ofList_append]
  rfl

/-- A dotted name is looked up at its entry unless its last part is taken for the ending. -/
private theorem entryName_javaName_of_not_spellsEnding {name : ClassName}
    (h : ¬ name.SpellsEnding) : entryName name.javaName = name.text ++ ".class" := by
  have hdrop : dropClassEnding name.javaName.toList = name.javaName.toList := by
    apply dropClassEnding_of_ne
    intro stem ending hsplit hending
    exact h (spellsEnding_of_ending hsplit hending)
  apply entryName_of_drop
  rw [hdrop]
  exact replaceChar_javaName name

/-- The class that is named like the package is another one, and so is its entry. -/
theorem package_entry_ne {name : ClassName} {package last : List Char}
    (htext : name.text.toList = package ++ '/' :: last) :
    String.ofList package ++ ".class" ≠ name.text ++ ".class" := by
  intro heq
  have hlength := congrArg (fun s : String => s.toList.length) heq
  simp only [String.toList_append, String.toList_ofList, List.length_append, htext,
    List.length_cons] at hlength
  omega

/-- The dotted name of a class is also that of another class with the ending only if its last
segment spells the ending in small letters. -/
theorem javaName_shared_iff {name : ClassName} {package last : List Char}
    (htext : name.text.toList = package ++ '/' :: last)
    (hlast : last.map Char.toLower = "class".toList) :
    (∃ other : ClassName, name.javaName = other.javaName ++ ".class")
      ↔ last = "class".toList := by
  constructor
  · intro h
    obtain ⟨other, hshared⟩ := h
    have hback : name.text.toList = other.text.toList ++ '/' :: "class".toList := by
      rw [← replaceChar_javaName, hshared, String.toList_append, Text.replaceChar_append,
        replaceChar_javaName]
      rfl
    rw [htext] at hback
    have hlength : ('/' :: last).length = ('/' :: "class".toList).length := by
      rw [List.length_cons, List.length_cons, ← hlast, List.length_map]
    exact (List.cons.inj (List.append_inj_right' hback hlength)).2
  · intro hsmall
    have hvalid : checkClassName (String.ofList package).toList = .ok () := by
      rw [String.toList_ofList]
      exact checkClassName_package (htext ▸ name.valid)
    refine ⟨⟨String.ofList package, hvalid⟩, ?_⟩
    apply String.toList_inj.mp
    rw [String.toList_append, toList_javaName, toList_javaName, htext, hsmall,
      Text.replaceChar_append]
    show _ = Text.replaceChar '/' ['.'] (String.ofList package).toList ++ _
    rw [String.toList_ofList (l := package)]
    rfl

/-- **The names of a class lead to its entry**: the internal name and the dotted name with
`.class` do for every class. The dotted name does unless its last segment, behind a package,
spells the ending of a file; then it leads to the entry of the class that is named like the
package, though only in small letters could it have been that class that was meant. -/
theorem entryName_of_class (name : ClassName) :
    entryName name.text = name.text ++ ".class"
    ∧ entryName (name.javaName ++ ".class") = name.text ++ ".class"
    ∧ (entryName name.javaName = name.text ++ ".class" ↔ ¬ name.SpellsEnding)
    ∧ ∀ package last : List Char, name.text.toList = package ++ '/' :: last →
        last.map Char.toLower = "class".toList →
        entryName name.javaName = String.ofList package ++ ".class"
          ∧ ((∃ other : ClassName, name.javaName = other.javaName ++ ".class")
            ↔ last = "class".toList) := by
  refine ⟨entryName_text name, entryName_javaName_class name,
    ⟨?_, entryName_javaName_of_not_spellsEnding⟩, ?_⟩
  · intro hentry hspells
    obtain ⟨package, last, htext, hlast⟩ := hspells
    rw [entryName_of_spellsEnding htext hlast] at hentry
    exact package_entry_ne htext hentry
  · intro package last htext hlast
    exact ⟨entryName_of_spellsEnding htext hlast, javaName_shared_iff htext hlast⟩

/-- A class whose dotted name ends in the letters of the ending, without the dot. -/
def nestedClass : ClassName := ⟨"a/B$Class", rfl⟩

/-- A class that is called `class`, in a package. -/
def packagedClass : ClassName := ⟨"a/class", rfl⟩

/-- The nested class is found under its dotted name. The class that is called `class` is not: its
dotted name is that of another class with the ending. -/
theorem nestedClass_has_entry :
    ¬ nestedClass.SpellsEnding ∧ entryName "a.B$Class" = "a/B$Class.class"
      ∧ entryName "a.class" = "a.class"
      ∧ ∃ other : ClassName, packagedClass.javaName = other.javaName ++ ".class" := by
  have hspells : ¬ nestedClass.SpellsEnding := by
    intro h
    obtain ⟨package, last, htext, hlast⟩ := h
    have hsuffix : "/class".toList <:+ nestedClass.text.toList.map Char.toLower := by
      refine ⟨package.map Char.toLower, ?_⟩
      rw [htext, List.map_append, List.map_cons, hlast]
      rfl
    revert hsuffix
    decide
  obtain ⟨-, -, hiff, -⟩ := entryName_of_class nestedClass
  obtain ⟨-, -, -, hspelled⟩ := entryName_of_class packagedClass
  obtain ⟨hentry, hshared⟩ := hspelled ['a'] "class".toList rfl rfl
  exact ⟨hspells, hiff.mpr hspells, hentry, hshared.mpr rfl⟩

/-- The class of classes. -/
def classOfClasses : ClassName := ⟨"java/lang/Class", rfl⟩

/-- Its dotted name does not lead to its entry, and it is not the name of another class with
the ending either. -/
theorem classOfClasses_misses_entry :
    classOfClasses.javaName = "java.lang.Class"
    ∧ entryName classOfClasses.javaName = "java/lang.class"
    ∧ entryName classOfClasses.javaName ≠ classOfClasses.text ++ ".class"
    ∧ ∀ other : ClassName, classOfClasses.javaName ≠ other.javaName ++ ".class" := by
  have htext : classOfClasses.text.toList = "java/lang".toList ++ '/' :: "Class".toList := rfl
  have hlast : "Class".toList.map Char.toLower = "class".toList := by decide
  have hentry : entryName classOfClasses.javaName = String.ofList "java/lang".toList ++ ".class" :=
    entryName_of_spellsEnding htext hlast
  refine ⟨by decide, hentry, ?_, ?_⟩
  · rw [hentry]
    exact package_entry_ne htext
  · intro other hshared
    have hsmall := (javaName_shared_iff htext hlast).mp ⟨other, hshared⟩
    revert hsmall
    decide

end Editor

end Classdesk
