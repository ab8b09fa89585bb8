import Classdesk.Text.Quoted

/-!
# Replacing a character

`replaceChar a b` writes the text `b` for every `a`. A replacement by a single character that
did not occur before can be taken back (`replaceChar_back`), and two replacements that do not
write each other's character can be made in either order (`replaceChar_comm`).
-/

namespace Classdesk.Text

@[simp] theorem replaceChar_nil (a : Char) (b : List Char) : replaceChar a b [] = [] := rfl

/-- Characters are replaced one by one. -/
theorem replaceChar_append (a : Char) (b xs ys : List Char) :
    replaceChar a b (xs ++ ys) = replaceChar a b xs ++ replaceChar a b ys :=
  List.flatMap_append

theorem replaceChar_cons_self (a : Char) (b cs : List Char) :
    replaceChar a b (a :: cs) = b ++ replaceChar a b cs := by
  unfold replaceChar
  rw [List.flatMap_cons, if_pos rfl]

theorem replaceChar_cons_of_ne {a c : Char} (h : c ≠ a) (b cs : List Char) :
    replaceChar a b (c :: cs) = c :: replaceChar a b cs := by
  unfold replaceChar
  rw [List.flatMap_cons, if_neg h, List.singleton_append]

/-- A character that does not occur is not replaced. -/
theorem replaceChar_of_not_mem {a : Char} {b cs : List Char} (h : a ∉ cs) :
    replaceChar a b cs = cs := by
  induction cs with
  | nil => rfl
  | cons c cs ih =>
    obtain ⟨hc, hcs⟩ := List.ne_and_not_mem_of_not_mem_cons h
    rw [replaceChar_cons_of_ne (Ne.symm hc), ih hcs]

/-- A replacement that did not occur before can be taken back. -/
theorem replaceChar_back {a b : Char} {cs : List Char} (h : b ∉ cs) :
    replaceChar b [a] (replaceChar a [b] cs) = cs := by
  induction cs with
  | nil => rfl
  | cons c cs ih =>
    obtain ⟨hc, hcs⟩ := List.ne_and_not_mem_of_not_mem_cons h
    by_cases hca : c = a
    · rw [hca, replaceChar_cons_self, List.singleton_append, replaceChar_cons_self, ih hcs,
        List.singleton_append]
    · rw [replaceChar_cons_of_ne hca, replaceChar_cons_of_ne (Ne.symm hc), ih hcs]

/-- Replacements that do not get in each other's way can be made in either order. -/
theorem replaceChar_comm {a b : Char} {as bs : List Char} (hne : a ≠ b) (ha : a ∉ bs)
    (hb : b ∉ as) (cs : List Char) :
    replaceChar a as (replaceChar b bs cs) = replaceChar b bs (replaceChar a as cs) := by
  induction cs with
  | nil => rfl
  | cons c cs ih =>
    by_cases hca : c = a
    · subst hca
      rw [replaceChar_cons_of_ne hne, replaceChar_cons_self, replaceChar_cons_self,
        replaceChar_append, replaceChar_of_not_mem hb, ih]
    · by_cases hcb : c = b
      · subst hcb
        rw [replaceChar_cons_self, replaceChar_append, replaceChar_of_not_mem ha,
          replaceChar_cons_of_ne hca, replaceChar_cons_self, ih]
      · rw [replaceChar_cons_of_ne hcb, replaceChar_cons_of_ne hca, replaceChar_cons_of_ne hca,
          replaceChar_cons_of_ne hcb, ih]

end Classdesk.Text
