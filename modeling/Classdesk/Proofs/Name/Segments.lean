import Classdesk.Name

/-!
# Class names are rows of segments

The check of a class name cuts the text at its slashes and looks at the pieces one after
the other. This file says what passes it without cutting anything:

> `exists_className_iff`: a text is a class name exactly if it is some segments with a slash
> between each two of them. A segment has a character, and none of `.`, `;`, `[`, `/`.

Descriptors rely on one consequence, `ClassName.not_mem_text`: a class name does not hold
the `;` that ends it there. Nor does it hold a dot.
-/

namespace Classdesk

/-- Cutting a text at a character is the list operation of that name. -/
theorem Text.splitOn_eq (sep : Char) (cs : List Char) : splitOn sep cs = cs.splitOn sep := by
  induction cs with
  | nil => rfl
  | cons c cs ih =>
    have hne := splitOn_ne_nil sep cs
    rw [ih] at hne
    unfold splitOn
    rw [List.splitOn, List.splitOnP_cons_eq_if_modifyHead, ih]
    by_cases hc : c = sep
    · rw [if_pos hc, if_pos (beq_iff_eq.mpr hc)]
      rfl
    · rw [if_neg hc, if_neg (by simpa using hc)]
      show _ = List.modifyHead (List.cons c) (cs.splitOn sep)
      cases hpieces : cs.splitOn sep with
      | nil => exact absurd hpieces hne
      | cons piece pieces => rfl

/-- A text is cut on both sides of a separator on its own. -/
theorem Text.splitOn_append_cons (sep : Char) (xs ys : List Char) :
    splitOn sep (xs ++ sep :: ys) = splitOn sep xs ++ splitOn sep ys := by
  induction xs with
  | nil =>
    show splitOn sep (sep :: ys) = [] :: splitOn sep ys
    rw [splitOn, if_pos rfl]
  | cons x xs ih =>
    rw [List.cons_append, splitOn, splitOn, ih]
    by_cases hx : x = sep
    · rw [if_pos hx, if_pos hx, List.cons_append]
    · rw [if_neg hx, if_neg hx]
      cases hpieces : splitOn sep xs with
      | nil => exact absurd hpieces (splitOn_ne_nil sep xs)
      | cons piece pieces => rfl

/-- A segment has a character, and none that separates names or types. -/
def IsSegment (cs : List Char) : Prop :=
  cs ≠ [] ∧ ∀ c ∈ cs, c ≠ '.' ∧ c ≠ ';' ∧ c ≠ '[' ∧ c ≠ '/'

/-- The text of a class name: segments with slashes between them. -/
def IsClassName (cs : List Char) : Prop :=
  ∃ segments : List (List Char), segments ≠ [] ∧ (∀ s ∈ segments, IsSegment s)
    ∧ cs = ['/'].intercalate segments

private theorem checkSegment_eq_ok {cs : List Char} : checkSegment cs = .ok () ↔ IsSegment cs := by
  unfold checkSegment IsSegment
  by_cases hbad : cs.any isNameSeparator = true
  · rw [if_pos hbad]
    obtain ⟨c, hc, hsep⟩ := List.any_eq_true.mp hbad
    constructor
    · intro h
      cases h
    · intro h
      obtain ⟨hdot, hsemicolon, hbracket, hslash⟩ := h.2 c hc
      simp [isNameSeparator, hdot, hsemicolon, hbracket, hslash] at hsep
  · rw [if_neg hbad]
    have hgood : ∀ c ∈ cs, c ≠ '.' ∧ c ≠ ';' ∧ c ≠ '[' ∧ c ≠ '/' := by
      intro c hc
      have hsep : isNameSeparator c = false := by
        simpa using fun h => hbad (List.any_eq_true.mpr ⟨c, hc, h⟩)
      simpa [isNameSeparator, and_assoc] using hsep
    cases cs with
    | nil => simp
    | cons c cs => simpa using hgood

private theorem checkSegments_eq_ok {segments : List (List Char)} :
    checkSegments segments = .ok () ↔ ∀ s ∈ segments, IsSegment s := by
  induction segments with
  | nil => simp [checkSegments]
  | cons s segments ih =>
    unfold checkSegments
    rw [List.forall_mem_cons, ← ih, ← checkSegment_eq_ok]
    cases checkSegment s with
    | error fault => simp [bind, Except.bind]
    | ok u => simp [bind, Except.bind]

/-- The check passes what is put together from segments, and nothing else. -/
theorem checkClassName_eq_ok {cs : List Char} : checkClassName cs = .ok () ↔ IsClassName cs := by
  have hsplit : checkClassName cs = .ok () ↔ ∀ s ∈ cs.splitOn '/', IsSegment s := by
    unfold checkClassName
    cases cs with
    | nil => simp [IsSegment]
    | cons c cs =>
      rw [if_neg (by simp), checkSegments_eq_ok, Text.splitOn_eq]
  rw [hsplit]
  constructor
  · intro h
    refine ⟨cs.splitOn '/', ?_, h, (List.intercalate_splitOn '/').symm⟩
    rw [← Text.splitOn_eq]
    exact Text.splitOn_ne_nil '/' cs
  · intro h
    obtain ⟨segments, hne, hsegments, hcs⟩ := h
    rw [hcs, List.splitOn_intercalate '/' _ hne]
    · exact hsegments
    · intro s hs hslash
      exact ((hsegments s hs).2 '/' hslash).2.2.2 rfl

/-- What is in front of a slash of a class name is a class name. -/
theorem checkClassName_package {package last : List Char}
    (h : checkClassName (package ++ '/' :: last) = .ok ()) : checkClassName package = .ok () := by
  unfold checkClassName at h ⊢
  rw [if_neg (by simp), checkSegments_eq_ok, Text.splitOn_append_cons] at h
  have hpackage : ∀ s ∈ Text.splitOn '/' package, IsSegment s := fun s hs =>
    h s (List.mem_append_left _ hs)
  cases package with
  | nil => exact absurd rfl (hpackage [] (List.mem_singleton_self _)).1
  | cons c cs =>
    rw [if_neg (by simp), checkSegments_eq_ok]
    exact hpackage

/-- A text is a class name exactly if it is made of segments. -/
theorem exists_className_iff (text : String) :
    (∃ name : ClassName, name.text = text) ↔ IsClassName text.toList := by
  rw [← checkClassName_eq_ok]
  constructor
  · intro h
    obtain ⟨name, rfl⟩ := h
    exact name.valid
  · intro h
    exact ⟨⟨text, h⟩, rfl⟩

/-- What is neither the separator nor in a piece is not in the pieces put together. -/
theorem not_mem_intercalate {sep c : Char} (hsep : c ≠ sep) {pieces : List (List Char)}
    (h : ∀ piece ∈ pieces, c ∉ piece) : c ∉ [sep].intercalate pieces := by
  induction pieces with
  | nil => exact List.not_mem_nil
  | cons piece pieces ih =>
    obtain ⟨hpiece, hpieces⟩ := List.forall_mem_cons.mp h
    by_cases hlast : pieces = []
    · rw [hlast, List.intercalate_singleton]
      exact hpiece
    · rw [List.intercalate_cons_of_ne_nil hlast, List.mem_append, List.mem_append,
        List.mem_singleton]
      intro hmem
      rcases hmem with (hmem | hmem) | hmem
      · exact hpiece hmem
      · exact hsep hmem
      · exact ih hpieces hmem

namespace ClassName

/-- A class name is accepted as it is written. -/
theorem ofString_eq_ok {text : String} {name : ClassName} :
    ofString text = .ok name ↔ name.text = text := by
  unfold ofString
  constructor
  · intro h
    split at h
    · cases h
      rfl
    · cases h
  · intro h
    subst h
    split
    · rfl
    · next fault hfault =>
      rw [name.valid] at hfault
      cases hfault

/-- Of the separators, only the slash stands in a class name. -/
theorem not_mem_text (name : ClassName) {c : Char} (hsep : isNameSeparator c = true)
    (hslash : c ≠ '/') : c ∉ name.text.toList := by
  obtain ⟨segments, -, hsegments, htext⟩ := checkClassName_eq_ok.mp name.valid
  rw [htext]
  apply not_mem_intercalate hslash
  intro s hs hmem
  obtain ⟨hdot, hsemicolon, hbracket, -⟩ := (hsegments s hs).2 c hmem
  simp [isNameSeparator, hdot, hsemicolon, hbracket, hslash] at hsep

end ClassName

end Classdesk
