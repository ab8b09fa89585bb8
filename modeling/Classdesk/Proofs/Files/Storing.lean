import Classdesk.Files.FileTree
import Classdesk.Proofs.Reading
import Mathlib.Data.List.Basic

/-!
# Files hold what was written to them

A path is followed from name to name, and a write changes the tree on which later paths are
followed. Still a path leads to the file that was written through it:

> `contentAt_store`: after `store p content` the content at `p` is `content`.

The way to a file goes through directories only, and a write puts no file where a directory
was, so every way that could be followed before can be followed after it (`follow_put`).
-/

namespace Classdesk.FileTree

variable {t : FileTree}

/-! ## Nodes -/

@[simp] theorem node?_put_self (t : FileTree) (l : Location) (n : Node) :
    (t.put l n).node? l = some n := by
  simp [node?, put]

/-- Putting something somewhere leaves all other places alone. -/
private theorem node?_put_of_ne {l m : Location} (h : m ≠ l) (n : Node) :
    (t.put l n).node? m = t.node? m := by
  have hskip : (m == l) = false := beq_eq_false_iff_ne.mpr h
  simp only [node?, put, List.lookup_cons, hskip]
  induction t.nodes with
  | nil => rfl
  | cons entry entries ih =>
    obtain ⟨k, node⟩ := entry
    by_cases hk : k = l
    · -- The entry that was put away stood at another location.
      rw [List.filter_cons_of_neg (by simp [hk]), ih, List.lookup_cons, hk, hskip]
    · rw [List.filter_cons_of_pos (by simpa using hk), List.lookup_cons, List.lookup_cons, ih]

/-! ## Ways -/

/-- Every step of a way starts at a directory. -/
theorem follow_cons_eq_ok {start stop : Location} {piece : List Char}
    {pieces : List (List Char)} :
    t.follow start (piece :: pieces) = .ok stop
      ↔ t.node? start = some .directory ∧ t.follow (toward start piece) pieces = .ok stop := by
  rw [follow]
  split
  next hnode => simp [hnode]
  next hnode => simp [hnode]
  next hnode => simp [hnode]

/-- A way through directories is still one after something was put where none was. -/
theorem follow_put {l : Location} (hl : t.node? l ≠ some .directory) (n : Node)
    {start stop : Location} {pieces : List (List Char)}
    (h : t.follow start pieces = .ok stop) : (t.put l n).follow start pieces = .ok stop := by
  induction pieces generalizing start with
  | nil => exact h
  | cons piece pieces ih =>
    obtain ⟨hnode, hrest⟩ := follow_cons_eq_ok.mp h
    have hne : start ≠ l := fun heq => hl (heq ▸ hnode)
    exact follow_cons_eq_ok.mpr ⟨(node?_put_of_ne hne n).trans hnode, ih hrest⟩

/-- One more piece leads on from a directory. -/
private theorem follow_concat {start stop : Location} {pieces : List (List Char)}
    (h : t.follow start pieces = .ok stop) (hstop : t.node? stop = some .directory)
    (piece : List Char) : t.follow start (pieces ++ [piece]) = .ok (toward stop piece) := by
  induction pieces generalizing start with
  | nil =>
    cases h
    exact follow_cons_eq_ok.mpr ⟨hstop, rfl⟩
  | cons next pieces ih =>
    obtain ⟨hnode, hrest⟩ := follow_cons_eq_ok.mp h
    exact follow_cons_eq_ok.mpr ⟨hnode, ih hrest⟩

/-! ## Writing -/

/-- A path that does not end in a slash is left as it is. -/
theorem dropTrailing_eq {pieces : List (List Char)}
    (h : ¬ (pieces.reverse.dropWhile (· == [])).reverse.length < pieces.length) :
    (pieces.reverse.dropWhile (· == [])).reverse = pieces := by
  have hsuffix := List.dropWhile_suffix (fun piece : List Char => piece == []) (l := pieces.reverse)
  have hall : pieces.reverse.dropWhile (· == []) = pieces.reverse := by
    apply hsuffix.eq_of_length_le
    simpa using h
  rw [hall, List.reverse_reverse]

/-- A new file is a name in a directory to which the rest of its path leads. -/
theorem newFile_eq_ok {p : Path} {l : Location} (h : t.newFile p = .ok l) :
    p.text.isEmpty = false ∧ ∃ way name parent, p.pieces = way ++ [name]
      ∧ t.follow (t.origin p) way = .ok parent ∧ t.node? parent = some .directory
      ∧ l = toward parent name := by
  unfold newFile at h
  split at h
  next => cases h
  next hempty =>
    refine ⟨by simpa using hempty, ?_⟩
    obtain ⟨parent, hfollow, hname⟩ := Reading.except_bind_eq_ok.mp h
    split at hname
    next => cases hname
    next => cases hname
    next => cases hname
    next name hparent hlast =>
      split at hname
      next => cases hname
      next hplain =>
        simp only [Bool.or_eq_true, decide_eq_true_eq, not_or] at hplain
        obtain ⟨⟨hlength, hidle⟩, hup⟩ := hplain
        rw [dropTrailing_eq hlength] at hfollow hlast
        refine ⟨p.pieces.dropLast, name, parent, ?_, hfollow, hparent, ?_⟩
        · exact (List.dropLast_append_getLast? name hlast).symm
        · unfold toward
          rw [if_neg hidle, if_neg hup]
          exact (Except.ok.inj hname).symm

/-- A write puts a file where no directory was. -/
theorem store_eq_ok {p : Path} {content : Bytes} {t' : FileTree}
    (h : t.store p content = .ok t') :
    ∃ l executable, t.newFile p = .ok l ∧ t.node? l ≠ some .directory
      ∧ t' = t.put l (.file content executable) := by
  unfold store at h
  obtain ⟨l, hnew, hput⟩ := Reading.except_bind_eq_ok.mp h
  split at hput
  next => cases hput
  next old executable hnode =>
    exact ⟨l, executable, hnew, by rw [hnode]; simp, (Except.ok.inj hput).symm⟩
  next hnode => exact ⟨l, false, hnew, by rw [hnode]; simp, (Except.ok.inj hput).symm⟩

/-- A file holds what was written to it last. -/
theorem contentAt_store {p : Path} {content : Bytes} {t' : FileTree}
    (h : t.store p content = .ok t') : t'.contentAt p = .ok content := by
  obtain ⟨l, executable, hnew, hl, rfl⟩ := store_eq_ok h
  obtain ⟨hempty, way, name, parent, hpieces, hfollow, hparent, rfl⟩ := newFile_eq_ok hnew
  -- The directory of the file is another location, so the way there is still open.
  have hne : parent ≠ toward parent name := fun heq => hl (heq ▸ hparent)
  have hlocate : (t.put (toward parent name) (.file content executable)).locate p
      = .ok (toward parent name) := by
    unfold locate
    rw [if_neg (by simp [hempty]), hpieces]
    exact follow_concat (follow_put hl _ hfollow) ((node?_put_of_ne hne _).trans hparent) name
  unfold contentAt open?
  rw [hlocate]
  simp [bind, Except.bind]

end Classdesk.FileTree
