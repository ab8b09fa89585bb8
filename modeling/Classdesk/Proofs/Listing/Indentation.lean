import Classdesk.Listing.Printer

/-!
# What an indenter writes

An `Indenter` cuts a text into parts of lines and passes them on one by one, with the
indentation in front of the part that starts a line. Into a sink that takes everything,
the outcome does not depend on the cuts:

> `apply_text`: `apply (.text s) out = (some (), out.wrote s.toList)`

where `wrote` goes through the characters one at a time. From there on a step of output is
a function on indenters (`after`), and a script runs through such steps up to its first
fault.
-/

namespace Classdesk

namespace Text

/-- A part of one line: it may end with its line feed and holds no other. -/
def IsPiece (piece : List Char) : Prop :=
  ∃ front : List Char, '\n' ∉ front ∧ (piece = front ++ ['\n'] ∨ (piece = front ∧ front ≠ []))

/-- A text is cut into parts of lines. -/
theorem isPiece_of_mem_splitAfter {cs piece : List Char} (h : piece ∈ splitAfter '\n' cs) :
    IsPiece piece := by
  induction cs generalizing piece with
  | nil => cases h
  | cons c cs ih =>
    rw [splitAfter] at h
    by_cases hc : c = '\n'
    · rw [if_pos hc] at h
      rcases List.mem_cons.mp h with hfirst | hother
      · exact ⟨[], by simp, .inl (by rw [hfirst, hc]; rfl)⟩
      · exact ih hother
    · rw [if_neg hc] at h
      have hone : ∀ front : List Char, '\n' ∉ front → '\n' ∉ c :: front := by
        intro front hfront hmem
        rcases List.mem_cons.mp hmem with heq | hin
        · exact hc heq.symm
        · exact hfront hin
      cases hsplit : splitAfter '\n' cs with
      | nil =>
        rw [hsplit] at h
        rw [List.mem_singleton.mp h]
        exact ⟨[c], hone [] (by simp), .inr ⟨rfl, by simp⟩⟩
      | cons first others =>
        rw [hsplit] at h ih
        rcases List.mem_cons.mp h with hfirst | hother
        · obtain ⟨front, hfront, hends⟩ := ih (List.mem_cons_self ..)
          refine ⟨c :: front, hone front hfront, ?_⟩
          rcases hends with hends | ⟨hends, -⟩
          · exact .inl (by rw [hfirst, hends]; rfl)
          · exact .inr ⟨by rw [hfirst, hends], by simp⟩
        · exact ih (List.mem_cons_of_mem _ hother)

end Text

namespace Listing

/-! ## Characters -/

/-- The characters with the margin in front of every line that is not empty; `inLine` says
whether the first of them goes on with a line. -/
def indented (margin : List Char) : (inLine : Bool) → List Char → List Char
  | _, [] => []
  | inLine, c :: cs =>
    if c = '\n' then c :: indented margin false cs
    else (if inLine then [] else margin) ++ c :: indented margin true cs

/-- Whether a line is open behind the characters. -/
def opensLine : (inLine : Bool) → List Char → Bool
  | inLine, [] => inLine
  | _, c :: cs => opensLine (c != '\n') cs

private theorem indented_append (margin : List Char) (inLine : Bool) (xs ys : List Char) :
    indented margin inLine (xs ++ ys)
      = indented margin inLine xs ++ indented margin (opensLine inLine xs) ys := by
  induction xs generalizing inLine with
  | nil => rfl
  | cons c cs ih =>
    rw [List.cons_append, indented, indented, opensLine]
    by_cases hc : c = '\n'
    · rw [if_pos hc, if_pos hc, ih, hc]
      rfl
    · have hopen : (c != '\n') = true := by simpa using hc
      rw [if_neg hc, if_neg hc, ih, hopen, List.append_assoc]
      rfl

private theorem opensLine_append (inLine : Bool) (xs ys : List Char) :
    opensLine inLine (xs ++ ys) = opensLine (opensLine inLine xs) ys := by
  induction xs generalizing inLine with
  | nil => rfl
  | cons c cs ih =>
    rw [List.cons_append, opensLine, opensLine]
    exact ih _

/-- Text without line feeds gets the margin once, in front. -/
theorem indented_of_not_mem {margin cs : List Char} (h : '\n' ∉ cs) (inLine : Bool) :
    indented margin inLine cs
      = if cs = [] then [] else (if inLine then [] else margin) ++ cs := by
  induction cs generalizing inLine with
  | nil => rfl
  | cons c cs ih =>
    have hc : c ≠ '\n' := fun heq => h (heq ▸ List.mem_cons_self ..)
    rw [indented, if_neg hc, ih (fun hmem => h (List.mem_cons_of_mem _ hmem)),
      if_neg (List.cons_ne_nil c cs)]
    by_cases hcs : cs = []
    · rw [if_pos hcs, hcs]
    · rw [if_neg hcs]
      rfl

private theorem opensLine_of_not_mem {cs : List Char} (h : '\n' ∉ cs) (inLine : Bool) :
    opensLine inLine cs = if cs = [] then inLine else true := by
  induction cs generalizing inLine with
  | nil => rfl
  | cons c cs ih =>
    have hc : (c != '\n') = true := by
      have hne : c ≠ '\n' := fun heq => h (heq ▸ List.mem_cons_self ..)
      simpa using hne
    rw [opensLine, hc, ih (fun hmem => h (List.mem_cons_of_mem _ hmem)),
      if_neg (List.cons_ne_nil c cs)]
    by_cases hcs : cs = []
    · rw [if_pos hcs]
    · rw [if_neg hcs]

/-- A part of a line gets the margin if it starts a line that is not empty. -/
theorem indented_piece {margin piece : List Char} (h : Text.IsPiece piece) (inLine : Bool) :
    indented margin inLine piece
      = (if piece = ['\n'] ∨ inLine = true then [] else margin) ++ piece := by
  obtain ⟨front, hfront, hends⟩ := h
  rcases hends with hends | ⟨hends, hne⟩
  · rw [hends, indented_append, indented_of_not_mem hfront]
    by_cases hempty : front = []
    · rw [if_pos hempty, hempty, if_pos (.inl rfl)]
      rfl
    · rw [if_neg hempty, List.append_assoc]
      simp only [List.append_eq_singleton_iff, hempty, false_and, reduceCtorEq, and_false,
        false_or, indented, if_true]
  · have hother : front ≠ ['\n'] := fun heq => hfront (by rw [heq]; exact List.mem_cons_self ..)
    rw [hends, indented_of_not_mem hfront, if_neg hne]
    simp only [hother, false_or]

private theorem opensLine_piece {piece : List Char} (h : Text.IsPiece piece) (inLine : Bool) :
    opensLine inLine piece = (piece.getLast? != some '\n') := by
  obtain ⟨front, hfront, hends⟩ := h
  rcases hends with hends | ⟨hends, hne⟩
  · rw [hends, opensLine_append, List.getLast?_concat]
    rfl
  · rw [hends, opensLine_of_not_mem hfront, if_neg hne]
    have hlast : front.getLast? ≠ some '\n' := fun heq => hfront (List.mem_of_getLast? heq)
    simpa using hlast

namespace Indenter

/-! ## Steps that may fail -/

section Steps

variable {σ : Type}

/-- A step goes on from where the one before it ended, unless that one failed. -/
theorem bind_run {α β : Type} (x : Output σ α) (f : α → Output σ β) (out : Indenter σ) :
    (x >>= f) out =
      match x out with
      | (some a, next) => f a next
      | (none, next) => (none, next) := by
  cases hx : x out with
  | mk result next =>
    simp only [bind, OptionT.bind, OptionT.mk, StateT.bind, hx]
    cases result with
    | none => rfl
    | some a => rfl

private theorem get_run (out : Indenter σ) :
    (get : Output σ (Indenter σ)) out = (some out, out) := rfl

end Steps

/-! ## Writing into a text -/

/-- The indentation of a line that starts now. -/
def margin (out : Indenter String) : String := String.join (List.replicate out.level out.unit)

/-- The indenter after some characters. -/
def wrote (out : Indenter String) (cs : List Char) : Indenter String :=
  { out with
    sink := out.sink ++ String.ofList (indented out.margin.toList out.inLine cs)
    inLine := opensLine out.inLine cs }

theorem wrote_nil (out : Indenter String) : out.wrote [] = out := by
  show { out with sink := out.sink ++ "" } = out
  rw [String.append_empty]

/-- What is written in two parts is written one behind the other. -/
theorem wrote_append (out : Indenter String) (xs ys : List Char) :
    out.wrote (xs ++ ys) = (out.wrote xs).wrote ys := by
  simp only [wrote, margin, indented_append, opensLine_append, String.ofList_append,
    String.append_assoc]

private theorem emit_text (piece : String) (out : Indenter String) :
    emit piece out = (some (), { out with sink := out.sink ++ piece }) := rfl

private theorem emitUnits_text (n : Nat) (out : Indenter String) :
    emitUnits n out =
      (some (), { out with sink := out.sink ++ String.join (List.replicate n out.unit) }) := by
  induction n generalizing out with
  | zero =>
    show (some (), out) = _
    rw [List.replicate_zero, String.join_nil, String.append_empty]
  | succ n ih =>
    rw [emitUnits, bind_run, get_run, List.replicate_succ, String.join_cons,
      ← String.append_assoc]
    show (emit out.unit >>= _) out = _
    rw [bind_run, emit_text]
    exact ih _

private theorem startLine_text (out : Indenter String) :
    startLine out = (some (), { out with
      sink := out.sink ++ if out.inLine then "" else out.margin, inLine := true }) := by
  rw [startLine, bind_run, get_run]
  show (if out.inLine = true then _ else _ : Output String Unit) out = _
  by_cases hin : out.inLine = true
  · rw [if_pos hin, if_pos hin, String.append_empty]
    cases out
    cases hin
    rfl
  · rw [if_neg hin, if_neg hin, bind_run, emitUnits_text]
    rfl

/-- A part of a line is passed on, behind the indentation if it starts a line. -/
theorem writePiece_run (piece : List Char) (out : Indenter String) :
    writePiece piece out = (some (), { out with
      sink := out.sink ++ (if piece = ['\n'] ∨ out.inLine = true then "" else out.margin)
        ++ String.ofList piece
      inLine := piece.getLast? != some '\n' }) := by
  rw [writePiece]
  by_cases hpiece : piece = ['\n']
  · rw [if_neg (not_not_intro hpiece), if_pos (.inl hpiece), String.append_empty]
    show (emit (String.ofList piece) >>= _) out = _
    rw [bind_run, emit_text]
    rfl
  · rw [if_pos hpiece, bind_run, startLine_text]
    show (emit (String.ofList piece) >>= _) _ = _
    rw [bind_run, emit_text]
    by_cases hin : out.inLine = true
    · rw [if_pos hin, if_pos (.inr hin)]
      rfl
    · rw [if_neg hin, if_neg (not_or.mpr ⟨hpiece, hin⟩)]
      rfl

/-- A piece is written behind the margin if it opens a line. -/
private theorem writePiece_text {piece : List Char} (h : Text.IsPiece piece)
    (out : Indenter String) : writePiece piece out = (some (), out.wrote piece) := by
  rw [writePiece_run, wrote, indented_piece h, opensLine_piece h, String.ofList_append,
    ← String.append_assoc]
  by_cases hstart : piece = ['\n'] ∨ out.inLine = true
  · rw [if_pos hstart, if_pos hstart]
  · rw [if_neg hstart, if_neg hstart, String.ofList_toList]

/-- Parts of lines are written as the text they make up. -/
theorem writePieces_text {pieces : List (List Char)} (h : ∀ p ∈ pieces, Text.IsPiece p)
    (out : Indenter String) : writePieces pieces out = (some (), out.wrote pieces.flatten) := by
  induction pieces generalizing out with
  | nil =>
    rw [List.flatten_nil, wrote_nil]
    rfl
  | cons piece pieces ih =>
    rw [writePieces, bind_run, writePiece_text (h piece (List.mem_cons_self ..)),
      List.flatten_cons, wrote_append]
    exact ih (fun p hp => h p (List.mem_cons_of_mem _ hp)) _

/-- Into a text, it does not matter where lines were cut. -/
theorem apply_text (s : String) (out : Indenter String) :
    apply (.text s) out = (some (), out.wrote s.toList) := by
  have hpieces : ∀ p ∈ Text.splitAfter '\n' s.toList, Text.IsPiece p :=
    fun p hp => Text.isPiece_of_mem_splitAfter hp
  rw [apply, writePieces_text hpieces, Text.flatten_splitAfter]

/-- The indenter after a step. -/
def after (out : Indenter String) : Op → Indenter String
  | .text s => out.wrote s.toList
  | .newline => { out with sink := out.sink ++ "\n", inLine := false }
  | .indent => { out with level := out.level + 1 }
  | .unindent => { out with level := out.level - 1 }

/-- A text refuses nothing. -/
theorem apply_eq_after (op : Op) (out : Indenter String) :
    apply op out = (some (), out.after op) := by
  cases op with
  | text s => exact apply_text s out
  | newline => rfl
  | indent => rfl
  | unindent => rfl

end Indenter

namespace Script

/-! ## Running a script into a text -/

theorem run_ok_cons (op : Op) (script : Script) (out : Indenter String) :
    run (.ok op :: script) out = run script (out.after op) := by
  rw [run, Indenter.apply_eq_after]

/-- Texts are written joined. -/
theorem run_texts (pieces : List String) (script : Script) (out : Indenter String) :
    run (texts pieces ++ script) out = run script (out.wrote (String.join pieces).toList) := by
  induction pieces generalizing out with
  | nil =>
    rw [String.join_nil]
    show run script out = run script (out.wrote [])
    rw [Indenter.wrote_nil]
  | cons piece pieces ih =>
    rw [String.join_cons, String.toList_append, Indenter.wrote_append]
    show run (.ok (.text piece) :: (texts pieces ++ script)) out = _
    rw [run_ok_cons, ih]
    rfl

end Script

end Listing

end Classdesk
