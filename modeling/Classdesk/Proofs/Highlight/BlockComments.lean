import Classdesk.Proofs.Highlight.Dialects
import Classdesk.Proofs.Highlight.Sweep
import Classdesk.Proofs.Pattern.Repetition
import Mathlib.Data.Nat.Find

/-!
# Block comments of patch scripts

The pattern for block comments has to say "no `*/` inside" without looking ahead. Between the
opening `/*` and the closing `*/` it goes on in rounds: a character that is no star, or some
stars and a character that is neither star nor slash. This file says that it means what it
should:

> `ends_blockComment`: where `/*` starts, the pattern has one end, right behind the first `*/`
> at least two characters further on, and none if there is no such `*/`.

So what a search finds is what a scan finds that looks for the next `/*`, jumps behind the
first `*/` after it and goes on there (`findIn_blockComment`), and this is what the pattern
adds to the events of patch scripts (`blockComment_scans`).

The reason is that no round contains a `*/` (`part_unclosed`), and that with a `*/` ahead
there is always a round to take or the end is reached (`rounds_to_close`).
-/

namespace Classdesk.Highlight

open Classdesk.Pattern.Expr (mem_ends_chars mem_ends_seq mem_ends_alt mem_ends_star rounds_chars
  ends_within)
open Classdesk.Pattern.CharSet (has_single has_noneOf)

/-! ## The pattern -/

/-- How the pattern is written. -/
def blockCommentSource : String := "/\\*(?:[^*]|\\*+[^*/])*\\*+/"

/-- One or more stars. -/
def stars : Pattern.Expr := .seq (.chars (.single '*')) (.star (.chars (.single '*')) true)

/-- A round inside a comment: a character but a star, or stars and a character but a slash. -/
def commentPart : Pattern.Expr :=
  .alt (.chars ⟨['*'].map fun c => .range c c, true, false⟩)
    (.seq stars (.chars ⟨['*', '/'].map fun c => .range c c, true, false⟩))

/-- The pattern as an expression. -/
def blockCommentExpr : Pattern.Expr :=
  .seq (.chars (.single '/')) <| .seq (.chars (.single '*')) <|
    .seq (.star commentPart true) <| .seq stars (.chars (.single '/'))

/-- The pattern with its label. -/
def blockComment : Pattern := ⟨blockCommentExpr.toRegex blockCommentSource, "comment"⟩

/-- The source of the pattern is read as the expression that is studied here. -/
private theorem compile_blockComment :
    Pattern.compile blockCommentSource "comment" = .ok blockComment := rfl

/-! ## What a scan looks for -/

/-- Whether `/*` starts at a position. -/
def opensAt (text : Array Char) (i : Nat) : Bool :=
  text[i]? == some '/' && text[i + 1]? == some '*'

/-- Whether `*/` starts at a position. -/
def closesAt (text : Array Char) (i : Nat) : Bool :=
  text[i]? == some '*' && text[i + 1]? == some '/'

/-- The first position from `i` on where something starts. -/
def firstFrom (startsAt : Array Char → Nat → Bool) (text : Array Char) (i : Nat) : Option Nat :=
  (List.range' i (text.size - i)).find? (startsAt text)

variable {text : Array Char} {i j a b c : Nat}

private theorem opensAt_iff :
    opensAt text i = true ↔ text[i]? = some '/' ∧ text[i + 1]? = some '*' := by
  simp [opensAt]

private theorem closesAt_iff :
    closesAt text i = true ↔ text[i]? = some '*' ∧ text[i + 1]? = some '/' := by
  simp [closesAt]

private theorem lt_size_of_getElem? {ch : Char} (h : text[i]? = some ch) : i < text.size :=
  (Array.getElem?_eq_some_iff.mp h).1

private theorem succ_lt_size_of_closesAt (h : closesAt text i = true) : i + 1 < text.size :=
  lt_size_of_getElem? (closesAt_iff.mp h).2

/-- The first index is one at which the marker starts, with none in front of it. -/
theorem firstFrom_eq_some {startsAt : Array Char → Nat → Bool} :
    firstFrom startsAt text i = some a
      ↔ i ≤ a ∧ a < text.size ∧ startsAt text a = true
        ∧ ∀ k, i ≤ k → k < a → startsAt text k = false := by
  rw [firstFrom, List.find?_range'_eq_some, List.mem_range'_1]
  simp only [Bool.not_eq_true']
  constructor
  · rintro ⟨hstart, hrange, hbefore⟩
    exact ⟨hrange.1, by omega, hstart, hbefore⟩
  · rintro ⟨hia, hsize, hstart, hbefore⟩
    exact ⟨hstart, ⟨hia, by omega⟩, hbefore⟩

/-- No index is found exactly if the marker starts nowhere. -/
theorem firstFrom_eq_none {startsAt : Array Char → Nat → Bool} :
    firstFrom startsAt text i = none
      ↔ ∀ k, i ≤ k → k < text.size → startsAt text k = false := by
  rw [firstFrom, List.find?_eq_none]
  simp only [List.mem_range'_1, Bool.not_eq_true]
  constructor
  · intro h k hik hk
    exact h k ⟨hik, by omega⟩
  · intro h k hk
    exact h k hk.1 (by omega)

/-- The first `*/` from a position on. -/
theorem firstClose_eq_some :
    firstFrom closesAt text i = some c
      ↔ i ≤ c ∧ closesAt text c = true ∧ ∀ k, i ≤ k → k < c → closesAt text k = false := by
  rw [firstFrom_eq_some]
  constructor
  · rintro ⟨hic, -, hclose, hbefore⟩
    exact ⟨hic, hclose, hbefore⟩
  · rintro ⟨hic, hclose, hbefore⟩
    have hsize := succ_lt_size_of_closesAt hclose
    exact ⟨hic, by omega, hclose, hbefore⟩

/-! ## Rounds inside a comment -/

private theorem mem_ends_char {ch : Char} :
    j ∈ (Pattern.Expr.chars (.single ch)).ends text i ↔ j = i + 1 ∧ text[i]? = some ch := by
  rw [mem_ends_chars]
  simp [has_single]

/-- A run of asterisks ends behind any of them. -/
private theorem mem_ends_stars :
    j ∈ stars.ends text i ↔ i < j ∧ ∀ k, i ≤ k → k < j → text[k]? = some '*' := by
  unfold stars
  rw [mem_ends_seq]
  constructor
  · rintro ⟨k, hk, hj⟩
    obtain ⟨rfl, hfirst⟩ := mem_ends_char.mp hk
    have hsize := lt_size_of_getElem? hfirst
    rw [mem_ends_star (by omega), rounds_chars] at hj
    refine ⟨by omega, fun k hik hkj => ?_⟩
    rcases Nat.eq_or_lt_of_le hik with rfl | hlt
    · exact hfirst
    · obtain ⟨ch, hch, hstar⟩ := hj.2 k hlt hkj
      rw [hch, has_single.mp hstar]
  · rintro ⟨hij, hall⟩
    have hfirst := hall i (Nat.le_refl i) hij
    have hsize := lt_size_of_getElem? hfirst
    refine ⟨i + 1, mem_ends_char.mpr ⟨rfl, hfirst⟩, ?_⟩
    rw [mem_ends_star (by omega), rounds_chars]
    exact ⟨hij, fun k hik hkj => ⟨'*', hall k (by omega) hkj, has_single.mpr rfl⟩⟩

/-- A round is over a character but a star, or over stars and a character but star and slash. -/
theorem mem_ends_part :
    j ∈ commentPart.ends text i
      ↔ (j = i + 1 ∧ ∃ ch, text[i]? = some ch ∧ ch ≠ '*')
        ∨ ∃ l, i < l ∧ (∀ k, i ≤ k → k < l → text[k]? = some '*') ∧ j = l + 1
          ∧ ∃ ch, text[l]? = some ch ∧ ch ≠ '*' ∧ ch ≠ '/' := by
  unfold commentPart
  rw [mem_ends_alt, mem_ends_seq, mem_ends_chars]
  simp only [mem_ends_stars, mem_ends_chars, has_noneOf, List.mem_cons, List.not_mem_nil, or_false,
    not_or, and_assoc]

/-- No `*/` starts inside a round. -/
theorem part_unclosed (h : j ∈ commentPart.ends text i) :
    ∀ k, i ≤ k → k < j → closesAt text k = false := by
  intro k hik hkj
  rw [Bool.eq_false_iff]
  intro hclose
  obtain ⟨hstar, hslash⟩ := closesAt_iff.mp hclose
  rcases mem_ends_part.mp h with ⟨rfl, ch, hch, hne⟩ | ⟨l, -, hstars, rfl, ch, hch, hne, hneslash⟩
  · obtain rfl : k = i := by omega
    rw [hch] at hstar
    exact hne (Option.some.inj hstar)
  · rcases Nat.lt_trichotomy (k + 1) l with hlt | rfl | hgt
    · -- Between two stars
      have hnext := hstars (k + 1) (by omega) hlt
      rw [hslash] at hnext
      cases hnext
    · rw [hch] at hslash
      exact hneslash (Option.some.inj hslash)
    · obtain rfl : k = l := by omega
      rw [hch] at hstar
      exact hne (Option.some.inj hstar)

/-- The inner part never runs over a terminator. -/
private theorem rounds_unclosed (h : Pattern.Rounds (commentPart.ends text) i j) :
    ∀ k, i ≤ k → k < j → closesAt text k = false := by
  induction h with
  | refl =>
    intro k hik hki
    omega
  | @tail m n _ hround ih =>
    intro k hik hkn
    rcases Nat.lt_or_ge k m with hlt | hge
    · exact ih k hik hlt
    · exact part_unclosed hround.1 k hge hkn

/-- A run of stars comes to an end. -/
theorem exists_run_of_stars (h : text[i]? = some '*') :
    ∃ l, i < l ∧ (∀ k, i ≤ k → k < l → text[k]? = some '*') ∧ text[l]? ≠ some '*' := by
  have hends : ∃ l, i ≤ l ∧ text[l]? ≠ some '*' := by
    refine ⟨text.size, Nat.le_of_lt (lt_size_of_getElem? h), ?_⟩
    rw [Array.getElem?_eq_none (Nat.le_refl _)]
    exact nofun
  obtain ⟨hle, hend⟩ := Nat.find_spec hends
  refine ⟨Nat.find hends, ?_, ?_, hend⟩
  · rcases Nat.eq_or_lt_of_le hle with heq | hlt
    · rw [← heq] at hend
      exact absurd h hend
    · exact hlt
  · intro k hik hk
    by_contra hne
    exact Nat.find_min hends hk ⟨hik, hne⟩

/-- A run of stars that is over before the `*/` ahead makes a round. -/
theorem part_over_stars {l : Nat} (hil : i < l)
    (hstars : ∀ k, i ≤ k → k < l → text[k]? = some '*') (hend : text[l]? ≠ some '*')
    (hlc : l ≤ c) (hclose : closesAt text c = true)
    (hbefore : ∀ k, i ≤ k → k < c → closesAt text k = false) :
    l + 1 ∈ commentPart.ends text i ∧ l < c := by
  have hsize := succ_lt_size_of_closesAt hclose
  have hafter : text[l]? = some text[l] := Array.getElem?_eq_getElem (by omega)
  have hnotstar : text[l] ≠ '*' := fun heq => hend (heq ▸ hafter)
  have hnotslash : text[l] ≠ '/' := by
    intro heq
    rw [heq] at hafter
    have hearly := hbefore (l - 1) (by omega) (by omega)
    rw [Bool.eq_false_iff, ne_eq, closesAt_iff, Nat.sub_add_cancel (by omega)] at hearly
    exact hearly ⟨hstars (l - 1) (by omega) (by omega), hafter⟩
  refine ⟨mem_ends_part.mpr (.inr ⟨l, hil, hstars, rfl, _, hafter, hnotstar, hnotslash⟩), ?_⟩
  refine Nat.lt_of_le_of_ne hlc ?_
  rintro rfl
  exact hend (closesAt_iff.mp hclose).1

/-- With a `*/` ahead, rounds lead to the stars that belong to it. -/
theorem rounds_to_close (hic : i ≤ c) (hclose : closesAt text c = true)
    (hbefore : ∀ k, i ≤ k → k < c → closesAt text k = false) :
    ∃ m, Pattern.Rounds (commentPart.ends text) i m ∧ c + 1 ∈ stars.ends text m := by
  obtain ⟨hstar, hslash⟩ := closesAt_iff.mp hclose
  have hsize := succ_lt_size_of_closesAt hclose
  induction hn : c - i using Nat.strongRecOn generalizing i with
  | _ n ih =>
    -- A round from here that stays in front of the `*/` leaves the rest to the induction.
    have hround : ∀ j, j ∈ commentPart.ends text i → i < j → j ≤ c →
        ∃ m, Pattern.Rounds (commentPart.ends text) i m ∧ c + 1 ∈ stars.ends text m := by
      intro j hj hij hjc
      obtain ⟨m, hm, hend⟩ :=
        ih (c - j) (by omega) hjc (fun k hjk hkc => hbefore k (by omega) hkc) rfl
      exact ⟨m, .head ⟨hj, hij⟩ hm, hend⟩
    by_cases hfirst : text[i]? = some '*'
    · obtain ⟨l, hil, hstars, hend⟩ := exists_run_of_stars hfirst
      rcases Nat.lt_or_ge c l with hcl | hlc
      · -- The run holds the closing star, so the slash behind that ends it.
        obtain rfl : c + 1 = l := by
          by_contra hne
          have hnext := hstars (c + 1) (by omega) (by omega)
          rw [hslash] at hnext
          cases hnext
        exact ⟨i, .refl, mem_ends_stars.mpr ⟨hil, hstars⟩⟩
      · obtain ⟨hpart, hlt⟩ := part_over_stars hil hstars hend hlc hclose hbefore
        exact hround (l + 1) hpart (by omega) hlt
    · have hread : text[i]? = some text[i] := Array.getElem?_eq_getElem (by omega)
      have hic' : i ≠ c := by
        rintro rfl
        exact hfirst hstar
      refine hround (i + 1) ?_ (by omega) (by omega)
      exact mem_ends_part.mpr (.inl ⟨rfl, _, hread, fun heq => hfirst (heq ▸ hread)⟩)

/-! ## Where a comment ends -/

/-- A comment is its opening, rounds, stars and a slash. -/
theorem mem_ends_blockComment_iff :
    j ∈ blockCommentExpr.ends text i ↔ opensAt text i = true
      ∧ ∃ m, Pattern.Rounds (commentPart.ends text) (i + 2) m
        ∧ ∃ l ∈ stars.ends text m, j = l + 1 ∧ text[l]? = some '/' := by
  rw [opensAt_iff]
  simp only [blockCommentExpr, mem_ends_seq, mem_ends_char]
  constructor
  · rintro ⟨_, ⟨rfl, hslash⟩, _, ⟨rfl, hstar⟩, m, hm, hend⟩
    have hsize := lt_size_of_getElem? hstar
    exact ⟨⟨hslash, hstar⟩, m, (mem_ends_star (by omega)).mp hm, hend⟩
  · rintro ⟨⟨hslash, hstar⟩, m, hm, hend⟩
    have hsize := lt_size_of_getElem? hstar
    exact ⟨_, ⟨rfl, hslash⟩, _, ⟨rfl, hstar⟩, m, (mem_ends_star (by omega)).mpr hm, hend⟩

/-- What rounds, stars and a slash lead over has its first `*/` at the end. -/
theorem firstClose_of_rounds {m l : Nat} (hrounds : Pattern.Rounds (commentPart.ends text) i m)
    (hstars : l ∈ stars.ends text m) (hslash : text[l]? = some '/') :
    firstFrom closesAt text i = some (l - 1) := by
  obtain ⟨hml, hall⟩ := mem_ends_stars.mp hstars
  have him := hrounds.le
  refine firstClose_eq_some.mpr ⟨by omega, ?_, ?_⟩
  · rw [closesAt_iff, Nat.sub_add_cancel (by omega)]
    exact ⟨hall (l - 1) (by omega) (by omega), hslash⟩
  · intro k hik hkl
    rcases Nat.lt_or_ge k m with hlt | hge
    · exact rounds_unclosed hrounds k hik hlt
    · -- Behind a star of the run stands another one.
      rw [Bool.eq_false_iff]
      intro hclose
      have hnext := hall (k + 1) (by omega) (by omega)
      rw [(closesAt_iff.mp hclose).2] at hnext
      cases hnext

/-- From an opener a comment has one end, behind the first terminator. -/
theorem mem_ends_blockComment :
    j ∈ blockCommentExpr.ends text i
      ↔ opensAt text i = true ∧ ∃ c, firstFrom closesAt text (i + 2) = some c ∧ j = c + 2 := by
  rw [mem_ends_blockComment_iff]
  refine and_congr_right fun _ => ?_
  constructor
  · rintro ⟨m, hrounds, l, hstars, rfl, hslash⟩
    have hml := (mem_ends_stars.mp hstars).1
    exact ⟨l - 1, firstClose_of_rounds hrounds hstars hslash, by omega⟩
  · rintro ⟨c, hfirst, rfl⟩
    obtain ⟨hic, hclose, hbefore⟩ := firstClose_eq_some.mp hfirst
    obtain ⟨m, hrounds, hstars⟩ := rounds_to_close hic hclose hbefore
    exact ⟨m, hrounds, c + 1, hstars, rfl, (closesAt_iff.mp hclose).2⟩

/-- A list without duplicates with at most one member. -/
theorem eq_toList_of_mem_iff {α : Type} {l : List α} {o : Option α} (hl : l.Nodup)
    (h : ∀ a, a ∈ l ↔ a ∈ o) : l = o.toList := by
  cases o with
  | none => exact List.eq_nil_iff_forall_not_mem.mpr fun a ha => nomatch (h a).mp ha
  | some b =>
    have hmem : ∀ a, a ∈ l ↔ a ∈ [b] := by
      intro a
      rw [h a, Option.mem_some, List.mem_singleton, eq_comm]
    have hsingle : [b].Nodup := List.pairwise_singleton ..
    exact List.perm_singleton.mp ((List.perm_ext_iff_of_nodup hl hsingle).mpr hmem)

/-- **A comment has one end**, behind the first `*/` at least two characters after its start,
or none if there is no such `*/`. -/
theorem ends_blockComment (text : Array Char) (i : Nat) :
    blockCommentExpr.ends text i
      = if opensAt text i then ((firstFrom closesAt text (i + 2)).map (· + 2)).toList else [] := by
  by_cases hopen : opensAt text i = true
  · rw [if_pos hopen]
    refine eq_toList_of_mem_iff (nodup_eraseDups _) fun j => ?_
    rw [mem_ends_blockComment, Option.mem_def, Option.map_eq_some_iff]
    simp only [hopen, true_and, eq_comm]
  · rw [if_neg hopen, List.eq_nil_iff_forall_not_mem]
    intro j hj
    exact hopen (mem_ends_blockComment.mp hj).1

/-! ## Scanning -/

/-- The next comment from a position on: the next `/*`, and the first `*/` behind it. -/
def nextComment? (text : Array Char) (i : Nat) : Option (Nat × Nat) := do
  let a ← firstFrom opensAt text i
  let c ← firstFrom closesAt text (a + 2)
  some (a, c + 2)

private theorem nextComment?_eq_some (h : nextComment? text i = some (a, b)) :
    i ≤ a ∧ a < b ∧ b ≤ text.size := by
  obtain ⟨a', hopen, h⟩ := Option.bind_eq_some_iff.mp h
  obtain ⟨c, hclose, h⟩ := Option.bind_eq_some_iff.mp h
  cases h
  have hia := (firstFrom_eq_some.mp hopen).1
  have hac := firstClose_eq_some.mp hclose
  have hsize := succ_lt_size_of_closesAt hac.2.1
  omega

/-- The comments from a position on: behind each of them, the search goes on. -/
def commentsFrom (text : Array Char) (i : Nat) : List (Nat × Nat) :=
  match _h : nextComment? text i with
  | none => []
  | some (a, b) => (a, b) :: commentsFrom text b
termination_by text.size - i
decreasing_by
  have := nextComment?_eq_some _h
  omega

/-- The search for something goes on one position further. -/
theorem firstFrom_succ {startsAt : Array Char → Nat → Bool} (hi : i < text.size) :
    firstFrom startsAt text i
      = if startsAt text i then some i else firstFrom startsAt text (i + 1) := by
  have hrange : List.range' i (text.size - i) = i :: List.range' (i + 1) (text.size - (i + 1)) := by
    rw [← List.range'_succ]
    congr 1
    omega
  rw [firstFrom, hrange, List.find?_cons]
  cases startsAt text i with
  | true => rfl
  | false => rfl

/-- Behind a comment that is not closed there is none. -/
theorem nextComment?_of_unclosed (h : firstFrom closesAt text (i + 2) = none) :
    nextComment? text i = none := by
  cases hnext : nextComment? text i with
  | none => rfl
  | some found =>
    obtain ⟨a, hopen, hrest⟩ := Option.bind_eq_some_iff.mp hnext
    obtain ⟨c, hclose, -⟩ := Option.bind_eq_some_iff.mp hrest
    have hia := (firstFrom_eq_some.mp hopen).1
    obtain ⟨hac, hsize, hcloses, -⟩ := firstFrom_eq_some.mp hclose
    rw [firstFrom_eq_none.mp h c (by omega) hsize] at hcloses
    cases hcloses

/-- The leftmost match is the next comment. -/
private theorem find?_blockComment (fuel : Nat) (hi : i + fuel = text.size) :
    blockCommentExpr.find? text fuel i = nextComment? text i := by
  induction fuel generalizing i with
  | zero =>
    have hnone : firstFrom opensAt text i = none := by
      rw [firstFrom_eq_none]
      omega
    have hclosed : opensAt text i = false := by
      rw [Bool.eq_false_iff, ne_eq, opensAt_iff]
      intro h
      have hsize := lt_size_of_getElem? h.1
      omega
    rw [Pattern.Expr.find?, ends_blockComment, hclosed, nextComment?, hnone]
    rfl
  | succ fuel ih =>
    have hlater := ih (i := i + 1) (by omega)
    rw [Pattern.Expr.find?, ends_blockComment]
    cases hopen : opensAt text i with
    | false =>
      -- The next comment is the next one from the next position on.
      have hfirst : firstFrom opensAt text i = firstFrom opensAt text (i + 1) := by
        rw [firstFrom_succ (by omega), hopen]
        rfl
      rw [nextComment?, hfirst]
      exact hlater
    | true =>
      cases hclose : firstFrom closesAt text (i + 2) with
      | none =>
        have hunclosed : firstFrom closesAt text (i + 1 + 2) = none := by
          rw [firstFrom_eq_none] at hclose ⊢
          exact fun k hk => hclose k (by omega)
        rw [nextComment?_of_unclosed hclose, ← nextComment?_of_unclosed hunclosed]
        exact hlater
      | some c =>
        have hfirst : firstFrom opensAt text i = some i := by
          rw [firstFrom_succ (by omega), hopen]
          rfl
        rw [nextComment?, hfirst]
        show _ = (firstFrom closesAt text (i + 2)).bind fun c => some (i, c + 2)
        rw [hclose]
        rfl

/-- The search goes on behind a comment, as the scan does, for no comment is empty. -/
private theorem findFrom_blockComment (fuel : Nat) (last : Option Nat) (hi : i ≤ text.size)
    (hfuel : text.size < i + fuel) :
    blockCommentExpr.findFrom text fuel i last = commentsFrom text i := by
  induction fuel generalizing i last with
  | zero => omega
  | succ fuel ih =>
    rw [Pattern.Expr.findFrom, if_neg (by omega), find?_blockComment _ (by omega), commentsFrom]
    cases hnext : nextComment? text i with
    | none => rfl
    | some found =>
      obtain ⟨a, b⟩ := found
      obtain ⟨hia, hab, hb⟩ := nextComment?_eq_some hnext
      show (if a = b ∧ last = some b then _ else _) = _
      rw [if_neg fun h => Nat.ne_of_lt hab h.1, ih _ hb (by omega)]

/-- A search finds what the scan finds. -/
theorem findIn_blockComment (text : Array Char) :
    blockCommentExpr.findIn text = commentsFrom text 0 :=
  findFrom_blockComment _ _ (Nat.zero_le _) (by omega)

example : blockCommentExpr.findIn "/*/ **/ x /**/ /*".toList.toArray = [(0, 7), (10, 14)] := by
  decide +kernel

/-! ## Events -/

/-- The comments the scan finds, by byte offsets. -/
def scannedComments (text : String) : List Match :=
  (commentsFrom text.toList.toArray 0).map fun (a, b) =>
    ⟨"comment", Text.byteLength (text.toList.take a), Text.byteLength (text.toList.take b)⟩

/-- Comments that the scan finds are not empty. -/
theorem commentsFrom_lt (text : Array Char) (i : Nat) :
    ∀ m ∈ commentsFrom text i, m.1 < m.2 ∧ m.2 ≤ text.size := by
  fun_induction commentsFrom text i with
  | case1 i hnext => exact fun m hm => absurd hm List.not_mem_nil
  | case2 i a b hnext ih =>
    intro m hm
    rcases List.mem_cons.mp hm with rfl | hm
    · exact (nextComment?_eq_some hnext).2
    · exact ih m hm

/-- The matches of the pattern are the comments that the scan finds. -/
theorem found_blockComment (text : String) : found [blockComment] text = scannedComments text := by
  have hall : ∀ r ∈ blockCommentExpr.findAll text, decide (r.1 < r.2) = true := by
    intro r hr
    rw [Pattern.Expr.findAll_eq, findIn_blockComment] at hr
    obtain ⟨m, hm, rfl⟩ := List.mem_map.mp hr
    obtain ⟨hlt, hsize⟩ := commentsFrom_lt _ _ m hm
    exact decide_eq_true (Text.byteLength_take_lt hlt (by simpa using hsize))
  rw [found, List.flatMap_singleton]
  show ((blockCommentExpr.findAll text).filter _).map _ = _
  rw [List.filter_eq_self.mpr hall, Pattern.Expr.findAll_eq, findIn_blockComment, List.map_map]
  rfl

private theorem blockComment_mem_patch : blockComment ∈ Dialect.patch.patterns := by
  refine (Dialect.mem_patterns _ _).mpr ⟨(blockCommentSource, "comment"), ?_, compile_blockComment⟩
  refine List.mem_append_right _ ?_
  decide

/-- **Block comments end at their first terminator.** The pattern matches from a position if
`/*` starts there and there is a `*/` at least two characters further on, and the only match
ends behind the first of these. In patch scripts, the events of the pattern are those of the
comments that the scan finds. -/
theorem blockComment_scans :
    Pattern.compile "/\\*(?:[^*]|\\*+[^*/])*\\*+/" "comment" = .ok blockComment
      ∧ (∀ text i, (∃ j, j ∈ blockCommentExpr.ends text i)
          ↔ opensAt text i = true ∧ ∃ c ≥ i + 2, closesAt text c = true)
      ∧ (∀ text i, blockCommentExpr.ends text i = if opensAt text i then
          ((firstFrom closesAt text (i + 2)).map (· + 2)).toList else [])
      ∧ ∃ front back, Dialect.patch.patterns = front ++ blockComment :: back
          ∧ ∀ text, boundaryEvents Dialect.patch.patterns text
            = (matchEvents (found front text ++ scannedComments text ++ found back text)).mergeSort
              Event.le := by
  refine ⟨compile_blockComment, ?_, ends_blockComment, ?_⟩
  · intro text i
    simp only [mem_ends_blockComment]
    constructor
    · rintro ⟨_, hopen, c, hfirst, rfl⟩
      obtain ⟨hic, hclose, -⟩ := firstClose_eq_some.mp hfirst
      exact ⟨hopen, c, hic, hclose⟩
    · rintro ⟨hopen, c, hic, hclose⟩
      cases hfirst : firstFrom closesAt text (i + 2) with
      | some first => exact ⟨_, hopen, first, rfl, rfl⟩
      | none =>
        have hsize := succ_lt_size_of_closesAt hclose
        rw [firstFrom_eq_none.mp hfirst c hic (by omega)] at hclose
        cases hclose
  · obtain ⟨front, back, hsplit⟩ := List.append_of_mem blockComment_mem_patch
    refine ⟨front, back, hsplit, fun text => ?_⟩
    have hfound : found Dialect.patch.patterns text
        = found front text ++ found [blockComment] text ++ found back text := by
      rw [hsplit, List.append_cons]
      unfold found
      rw [List.flatMap_append, List.flatMap_append]
    rw [boundaryEvents_eq, hfound, found_blockComment]

end Classdesk.Highlight
