import Classdesk.Editor.Session
import Classdesk.Proofs.Highlight.Ranges
import Mathlib.Data.List.DropRight
import Mathlib.Order.Bounds.Basic

/-!
# Line breaks carry the indentation over

Breaking a line puts a line feed into the patch and the indentation of the line behind it.
Where this happens and what is put there is said by `Breaks`, without the functions that find
it out:

- the text is cut at the last place between two characters that is not behind the offset;
- the indentation is the white space that the line starts with, as far as the line goes up to
  the cut and without the carriage returns that it ends with there (`IndentOf`);
- the caret stands behind the indentation, and only the text and the saved flag change.

The main result is that every break is such a break, and that a break at the caret puts in the
same again:

> `breaks_and_breaks_again`: there are `front`, `indent` and `back` with
> `Breaks s offset front indent back`, and if carriage returns only stand in front of line
> feeds, also with `Breaks s' caret (front ++ '\n' :: indent) indent back`.
-/

namespace Classdesk

namespace Text

/-- The end of a front part is a boundary. -/
private theorem isBoundary_append (front back : List Char) :
    IsBoundary (front ++ back) (byteLength front) :=
  ⟨front.length, by simp, by simp⟩

/-- The greatest front part within a number of bytes keeps to it. -/
private theorem byteLength_frontWithin_le (bytes : Nat) (cs : List Char) :
    byteLength (frontWithin bytes cs) ≤ bytes := by
  induction cs generalizing bytes with
  | nil => exact Nat.zero_le _
  | cons c cs ih =>
    rw [frontWithin]
    split
    next hfits =>
      have hrest := ih (bytes - c.utf8Size)
      rw [byteLength_cons]
      omega
    next => exact Nat.zero_le _

/-- Up to its own length, a front is found again. -/
theorem frontWithin_append (front back : List Char) :
    frontWithin (byteLength front) (front ++ back) = front := by
  induction front with
  | nil => exact frontWithin_zero back
  | cons c front ih =>
    rw [List.cons_append, byteLength_cons, frontWithin, if_pos (Nat.le_add_right ..),
      Nat.add_sub_cancel_left, ih]

/-- The characters within some bytes end at the last boundary among them. -/
theorem isGreatest_frontWithin (bytes : Nat) (cs : List Char) :
    IsGreatest {b | IsBoundary cs b ∧ b ≤ min bytes (byteLength cs)}
      (byteLength (frontWithin bytes cs)) := by
  have hcs := frontWithin_append_drop bytes cs
  constructor
  · refine ⟨?_, Nat.le_min.mpr ⟨byteLength_frontWithin_le bytes cs, ?_⟩⟩
    · have hboundary := isBoundary_append (frontWithin bytes cs)
        (cs.drop (frontWithin bytes cs).length)
      rwa [hcs] at hboundary
    · conv_rhs => rw [← hcs, byteLength_append]
      exact Nat.le_add_right ..
  · intro b hb
    obtain ⟨hboundary, hle⟩ := hb
    obtain ⟨more, hmore⟩ := frontWithin_isPrefix (hle.trans (Nat.min_le_left ..)) cs
    rw [← hmore, byteLength_append, byteLength_frontWithin hboundary]
    exact Nat.le_add_right ..

end Text

namespace Editor

/-! ## Indentation -/

/-- The indentation of the line that a text ends with: the white space in front, without the
carriage returns behind. -/
def IndentOf (front indent : List Char) : Prop :=
  ∃ earlier body returns : List Char,
    front = earlier ++ (body ++ returns)
    ∧ (∀ c ∈ earlier.getLast?, c = '\n') ∧ '\n' ∉ body ++ returns
    ∧ (∀ c ∈ returns, c = '\r') ∧ (∀ c ∈ body.getLast?, c ≠ '\r')
    ∧ indent = body.takeWhile Text.isWhite

/-- A list that ends with what satisfies `p`, and not before, is cut there. -/
theorem cut_of_append {α : Type} {p : α → Bool} {xs ys : List α} (hys : ∀ y ∈ ys, p y = true)
    (hxs : ∀ x ∈ xs.getLast?, p x = false) :
    (xs ++ ys).rdropWhile p = xs ∧ (xs ++ ys).rtakeWhile p = ys := by
  have hrev : ∀ y ∈ ys.reverse, p y = true := fun y hy => hys y (List.mem_reverse.mp hy)
  unfold List.rdropWhile List.rtakeWhile
  rw [List.reverse_append, List.dropWhile_append_of_pos hrev, List.takeWhile_append_of_pos hrev]
  rcases List.eq_nil_or_concat xs with rfl | ⟨front, last, rfl⟩
  · simp
  · have hlast : p last = false := hxs last (by simp)
    simp [hlast]

/-- What is left in front of a cut does not go on with what was cut off. -/
theorem last_rdropWhile {α : Type} (p : α → Bool) (xs : List α) :
    ∀ x ∈ (xs.rdropWhile p).getLast?, p x = false := by
  intro x hx
  obtain ⟨hne, rfl⟩ := List.mem_getLast?_eq_getLast hx
  simpa using List.rdropWhile_last_not p xs hne

private theorem not_mem_lastLine (front : List Char) : '\n' ∉ lastLine front := by
  intro hmem
  simpa using List.mem_rtakeWhile_imp (p := (· ≠ '\n')) hmem

/-- The last line starts behind the last line feed. -/
private theorem lastLine_append {earlier line : List Char}
    (hearlier : ∀ c ∈ earlier.getLast?, c = '\n') (hline : '\n' ∉ line) :
    lastLine (earlier ++ line) = line := by
  refine (cut_of_append (p := (· ≠ '\n')) ?_ ?_).2
  · intro c hc
    have hne : c ≠ '\n' := fun heq => hline (heq ▸ hc)
    simpa using hne
  · intro c hc
    simp [hearlier c hc]

/-- Whether a character belongs to the end of a line. -/
def endsLine (c : Char) : Bool := c == '\n' || c == '\r'

/-- The white space that a line starts with, without the end of the line. -/
private theorem continuationIndent_eq (line : List Char) :
    continuationIndent line = (line.rdropWhile endsLine).takeWhile Text.isWhite := rfl

/-- The indentation is what `continuationIndent` makes of the last line, and nothing else. -/
theorem indentOf_iff {front indent : List Char} :
    IndentOf front indent ↔ indent = continuationIndent (lastLine front) := by
  constructor
  · intro h
    obtain ⟨earlier, body, returns, rfl, hearlier, hline, hreturns, hbody, rfl⟩ := h
    have hcut : (body ++ returns).rdropWhile endsLine = body := by
      refine (cut_of_append ?_ ?_).1
      · intro c hc
        simp [endsLine, hreturns c hc]
      · intro c hc
        have hfeed : c ≠ '\n' := by
          intro heq
          exact hline (List.mem_append_left _ (heq ▸ List.mem_of_getLast? hc))
        simp [endsLine, hfeed, hbody c hc]
    rw [lastLine_append hearlier hline, continuationIndent_eq, hcut]
  · intro h
    have hfront : front.rdropWhile (· ≠ '\n') ++ lastLine front = front :=
      List.rdropWhile_append_rtakeWhile
    have hline : (lastLine front).rdropWhile endsLine ++ (lastLine front).rtakeWhile endsLine
        = lastLine front := List.rdropWhile_append_rtakeWhile
    refine ⟨front.rdropWhile (· ≠ '\n'), (lastLine front).rdropWhile endsLine,
      (lastLine front).rtakeWhile endsLine, ?_, ?_, ?_, ?_, ?_, h⟩
    · rw [hline, hfront]
    · intro c hc
      simpa using last_rdropWhile _ _ c hc
    · rw [hline]
      exact not_mem_lastLine front
    · intro c hc
      have hfeed : c ≠ '\n' := by
        intro heq
        exact not_mem_lastLine front (heq ▸ (List.rtakeWhile_suffix _ _).mem hc)
      simpa [endsLine, hfeed] using List.mem_rtakeWhile_imp hc
    · intro c hc heq
      simpa [endsLine, heq] using last_rdropWhile _ _ c hc

/-- An indentation without carriage returns is the indentation of the line it makes up. -/
theorem IndentOf.again {front indent : List Char} (h : IndentOf front indent)
    (hreturn : '\r' ∉ indent) : IndentOf (front ++ '\n' :: indent) indent := by
  obtain ⟨earlier, body, returns, -, -, hline, -, -, hindent⟩ := h
  refine ⟨front ++ ['\n'], indent, [], by simp, by simp, ?_, by simp, ?_, ?_⟩
  · intro hmem
    rw [List.append_nil, hindent] at hmem
    exact hline (List.mem_append_left _ ((List.takeWhile_prefix _).mem hmem))
  · intro c hc heq
    exact hreturn (heq ▸ List.mem_of_getLast? hc)
  · rw [hindent, List.takeWhile_idem]

/-- Carriage returns only stand in front of line feeds. -/
def ReturnsPaired (text : List Char) : Prop :=
  ∀ i, text[i]? = some '\r' → text[i + 1]? = some '\n'

/-- Then no line is indented by a carriage return. -/
theorem IndentOf.not_mem_return {front back indent : List Char} (h : IndentOf front indent)
    (hpaired : ReturnsPaired (front ++ back)) : '\r' ∉ indent := by
  obtain ⟨earlier, body, returns, rfl, -, hline, -, hbody, rfl⟩ := h
  intro hmem
  obtain ⟨before, behind, hsplit⟩ :=
    List.append_of_mem ((List.takeWhile_prefix _).mem hmem)
  have htext : earlier ++ (body ++ returns) ++ back
      = (earlier ++ before) ++ '\r' :: (behind ++ (returns ++ back)) := by
    simp [hsplit]
  rw [htext] at hpaired
  -- A line feed follows, but the line goes on with another character or ends.
  have hnext := hpaired (earlier ++ before).length (by simp)
  rw [List.getElem?_append_right (Nat.le_add_right ..), Nat.add_sub_cancel_left] at hnext
  cases behind with
  | nil => exact hbody '\r' (by simp [hsplit]) rfl
  | cons c behind =>
    have hfeed : c = '\n' := by simpa using hnext
    exact hline (by simp [hsplit, hfeed])

/-! ## Breaking a line -/

/-- What breaking a line at an offset does. -/
structure Breaks (s : Session) (offset : Nat) (front indent back : List Char) : Prop where
  text : s.patchText.toList = front ++ back
  /-- The text is cut at the last boundary that is not behind the offset. -/
  place : IsGreatest
    {b | Text.IsBoundary s.patchText.toList b ∧ b ≤ min offset s.patchText.utf8ByteSize}
    (Text.byteLength front)
  carried : IndentOf front indent
  /-- The text gets a line feed and the indentation and is not saved any more, and nothing
  else changes. -/
  result : s.breakLine offset
    = ({ s with patchText := String.ofList (front ++ '\n' :: indent ++ back), saved := false },
      Text.byteLength front + 1 + Text.byteLength indent)
  /-- The caret stands behind the indentation. -/
  caret : Text.byteLength (front ++ '\n' :: indent) = (s.breakLine offset).2
  boundary : Text.IsBoundary (s.breakLine offset).1.patchText.toList (s.breakLine offset).2

variable {s : Session}

/-- A longer text is another text. -/
theorem setText_longer {text : List Char} (h : s.patchText.toList.length < text.length) :
    s.setText (String.ofList text)
      = { s with patchText := String.ofList text, saved := false } := by
  unfold Session.setText
  rw [if_neg]
  intro heq
  rw [← heq, String.toList_ofList] at h
  exact Nat.lt_irrefl _ h

/-- A break is determined by where the text is cut. -/
theorem breaks_of_front {offset : Nat} {front indent back : List Char}
    (htext : s.patchText.toList = front ++ back)
    (hfront : Text.frontWithin offset s.patchText.toList = front)
    (hindent : IndentOf front indent) : Breaks s offset front indent back := by
  have hlonger : s.patchText.toList.length < (front ++ '\n' :: indent ++ back).length := by
    rw [htext]
    simp only [List.length_append, List.length_cons]
    omega
  have hcaret : Text.byteLength (front ++ '\n' :: indent)
      = Text.byteLength front + 1 + Text.byteLength indent := by
    rw [Text.byteLength_append, Text.byteLength_cons, ← Nat.add_assoc]
    rfl
  have hresult : s.breakLine offset
      = ({ s with patchText := String.ofList (front ++ '\n' :: indent ++ back), saved := false },
        Text.byteLength front + 1 + Text.byteLength indent) := by
    unfold Session.breakLine
    dsimp only
    rw [hfront, ← indentOf_iff.mp hindent, setText_longer, ← Text.byteLength_append, hcaret]
    · rw [htext, List.drop_left]
    · rwa [htext, List.drop_left, ← htext]
  have hplace := Text.isGreatest_frontWithin offset s.patchText.toList
  rw [hfront, ← Text.utf8ByteSize_eq_byteLength] at hplace
  refine ⟨htext, hplace, hindent, hresult, ?_, ?_⟩
  · rw [hresult, hcaret]
  · rw [hresult, ← hcaret, String.toList_ofList]
    exact Text.isBoundary_append _ back

/-- **A line break carries the indentation over.** It is put in at the last boundary up to the
offset, behind it the white space that the line starts with, and the caret goes behind that.
If carriage returns only stand in front of line feeds, a break at the caret puts in the same
again. -/
theorem breaks_and_breaks_again (s : Session) (offset : Nat) :
    ∃ front indent back, Breaks s offset front indent back
      ∧ (ReturnsPaired s.patchText.toList →
          Breaks (s.breakLine offset).1 (s.breakLine offset).2 (front ++ '\n' :: indent) indent
            back) := by
  have htext := (Text.frontWithin_append_drop offset s.patchText.toList).symm
  have hbreaks := breaks_of_front htext rfl (indentOf_iff.mpr rfl)
  refine ⟨_, _, _, hbreaks, ?_⟩
  intro hpaired
  rw [htext] at hpaired
  -- Only a carriage return in the indentation could be dropped from it at the second break.
  have hagain := hbreaks.carried.again (hbreaks.carried.not_mem_return hpaired)
  refine breaks_of_front ?_ ?_ hagain
  · rw [hbreaks.result, String.toList_ofList]
  · rw [← hbreaks.caret, hbreaks.result, String.toList_ofList]
    exact Text.frontWithin_append _ _

/-- A patch with a wide space in front of its second line. -/
def widelySpaced : Session where
  bench := ⟨.identity, none, .standard⟩
  classBytes := []
  classPath := none
  patchPath := none
  patchText := "x\n\u3000é\r\ny"
  saved := true
  shown := ⟨"", none⟩

/-- The offset 6 lies inside the fourth character. -/
theorem widelySpaced_breaks_again :
    ReturnsPaired widelySpaced.patchText.toList
    ∧ (widelySpaced.breakLine 6).1.patchText = "x\n\u3000\n\u3000é\r\ny"
    ∧ ∃ front indent back, Breaks widelySpaced 6 front indent back
      ∧ Breaks (widelySpaced.breakLine 6).1 (widelySpaced.breakLine 6).2
          (front ++ '\n' :: indent) indent back := by
  have hpaired : ReturnsPaired widelySpaced.patchText.toList := by
    have hall : ∀ i < 7, widelySpaced.patchText.toList[i]? = some '\r' →
        widelySpaced.patchText.toList[i + 1]? = some '\n' := by
      decide
    intro i hi
    exact hall i (List.getElem?_eq_some_iff.mp hi).1 hi
  obtain ⟨front, indent, back, hbreaks, hagain⟩ := breaks_and_breaks_again widelySpaced 6
  exact ⟨hpaired, rfl, front, indent, back, hbreaks, hagain hpaired⟩

end Editor

end Classdesk
