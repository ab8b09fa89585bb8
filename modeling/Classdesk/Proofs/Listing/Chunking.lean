import Classdesk.Proofs.Listing.Layout
import Classdesk.Proofs.Listing.Passing

/-!
# An indenter sees characters, not pieces

Text comes to an indenter in pieces that end anywhere: in the middle of a line, in front of
a line feed or behind it. One flag carries over from piece to piece, and several steps set
it. The main result says that the pieces cannot be told from the outcome:

> `indents_by_line`: the text is all characters written, cut into lines, each line that is
> not empty behind the indentation for the level at its first character; and one text may be
> written in any number of pieces.

`written` is the characters with their levels, and `laidOut` cuts them into lines, with no
flag and no pieces. In between stands `scan`, which goes through the characters one at a
time with the flag: it agrees with the indenter step by step (`sink_afterAll`), and with the
lines by induction on the characters (`scan_eq`).

Neither depends on the sink. A sink that keeps all it is given holds the same text as a
`String` in its place would, since both are given the same writes (`applyAll_view`).
-/

namespace Classdesk.Listing

/-! ## Calls -/

/-- What can be asked of an indenter. -/
inductive Call
  | write (s : String)
  /-- Write a text and end its line. -/
  | writeLine (s : String)
  | newline
  | indent
  | unindent

/-- A call as output steps. -/
def Call.ops : Call → List Op
  | write s => [.text s]
  | writeLine s => [.text s, .newline]
  | newline => [.newline]
  | indent => [.indent]
  | unindent => [.unindent]

/-- The steps of some calls, one after the other. -/
def Call.steps (calls : List Call) : List Op := calls.flatMap Call.ops

/-! ## What the text should be -/

/-- The characters that some steps write, each with the level at which it is written. -/
def written : (level : Nat) → List Op → List (Char × Nat)
  | _, [] => []
  | level, .text s :: ops => s.toList.map (·, level) ++ written level ops
  | level, .newline :: ops => ('\n', level) :: written level ops
  | level, .indent :: ops => written (level + 1) ops
  | level, .unindent :: ops => written (level - 1) ops

/-- The indentation for a level. -/
def marginAt (unit : String) (level : Nat) : List Char :=
  (String.join (List.replicate level unit)).toList

/-- A line behind the indentation for its first character; an empty line has none. -/
def laidLine (unit : String) : List (Char × Nat) → List Char
  | [] => []
  | (c, level) :: cs => marginAt unit level ++ c :: cs.map Prod.fst

/-- Characters with their levels as a text: cut into lines, and every line laid out. -/
def laidOut (unit : String) (cs : List (Char × Nat)) : String :=
  String.ofList (List.intercalate ['\n'] ((cs.splitOnP (·.1 == '\n')).map (laidLine unit)))

/-! ## Character by character -/

/-- The characters with indentation where a line begins; `inLine` says whether the first of
them goes on with a line. -/
def scan (unit : String) : (inLine : Bool) → List (Char × Nat) → List Char
  | _, [] => []
  | inLine, (c, level) :: cs =>
    if c = '\n' then c :: scan unit false cs
    else (if inLine then [] else marginAt unit level) ++ c :: scan unit true cs

/-- At one level, characters are indented by one margin. -/
theorem scan_level (unit : String) (inLine : Bool) (level : Nat) (xs : List Char)
    (ys : List (Char × Nat)) :
    scan unit inLine (xs.map (·, level) ++ ys)
      = indented (marginAt unit level) inLine xs ++ scan unit (opensLine inLine xs) ys := by
  induction xs generalizing inLine with
  | nil => rfl
  | cons c cs ih =>
    rw [List.map_cons, List.cons_append, scan, indented, opensLine]
    by_cases hc : c = '\n'
    · rw [if_pos hc, if_pos hc, ih, hc]
      rfl
    · have hopen : (c != '\n') = true := by simpa using hc
      rw [if_neg hc, if_neg hc, ih, hopen, List.append_assoc, List.cons_append]

/-- The first of some lines, which may have been begun before. -/
def laidFrom (unit : String) (inLine : Bool) (line : List (Char × Nat)) : List Char :=
  if inLine then line.map Prod.fst else laidLine unit line

private theorem laidFrom_cons (unit : String) (inLine : Bool) (c : Char) (level : Nat)
    (line : List (Char × Nat)) :
    laidFrom unit inLine ((c, level) :: line)
      = ((if inLine then [] else marginAt unit level) ++ [c]) ++ laidFrom unit true line := by
  cases inLine with
  | true => rfl
  | false =>
    show marginAt unit level ++ c :: line.map Prod.fst = _
    rw [List.append_assoc]
    rfl

/-- Going through the characters lays out their lines. -/
theorem scan_eq (unit : String) {cs first : List (Char × Nat)} {others : List (List (Char × Nat))}
    (h : cs.splitOnP (·.1 == '\n') = first :: others) (inLine : Bool) :
    scan unit inLine cs
      = List.intercalate ['\n'] (laidFrom unit inLine first :: others.map (laidLine unit)) := by
  induction cs generalizing first others inLine with
  | nil =>
    rw [List.splitOnP_nil] at h
    cases h
    cases inLine with
    | true => rfl
    | false => rfl
  | cons head cs ih =>
    obtain ⟨c, level⟩ := head
    obtain ⟨next, later, hcs⟩ := List.exists_cons_of_ne_nil (List.splitOnP_ne_nil (·.1 == '\n') cs)
    rw [List.splitOnP_cons_eq_if_modifyHead, hcs] at h
    unfold scan
    by_cases hc : c = '\n'
    · -- A line ends here, and the next one starts afresh.
      rw [if_pos (by simpa using hc)] at h
      cases h
      rw [if_pos hc, ih hcs false, hc, List.map_cons, List.intercalate_cons_cons]
      cases inLine with
      | true => rfl
      | false => rfl
    · rw [if_neg (by simpa using hc)] at h
      cases h
      rw [if_neg hc, ih hcs true, laidFrom_cons, lines_intercalate_cons, lines_intercalate_cons,
        List.append_assoc, List.append_assoc]
      rfl

/-- Reading the characters one by one lays the text out line by line. -/
private theorem scan_eq_laidOut (unit : String) (cs : List (Char × Nat)) :
    String.ofList (scan unit false cs) = laidOut unit cs := by
  obtain ⟨first, others, hcs⟩ :=
    List.exists_cons_of_ne_nil (List.splitOnP_ne_nil (·.1 == '\n') cs)
  unfold laidOut
  rw [scan_eq unit hcs false, hcs]
  rfl

namespace Indenter

/-! ## Into a text -/

/-- The indenter after some steps. -/
def afterAll (out : Indenter String) (ops : List Op) : Indenter String := ops.foldl after out

private theorem applyAll_eq_afterAll (ops : List Op) (out : Indenter String) :
    applyAll ops out = (some (), out.afterAll ops) := by
  induction ops generalizing out with
  | nil => rfl
  | cons op ops ih =>
    rw [applyAll, bind_run, apply_eq_after]
    exact ih (out.after op)

/-- Step by step, the text grows by the characters written. -/
theorem sink_afterAll (ops : List Op) (out : Indenter String) :
    (out.afterAll ops).sink
      = out.sink ++ String.ofList (scan out.unit out.inLine (written out.level ops)) := by
  induction ops generalizing out with
  | nil =>
    show out.sink = out.sink ++ ""
    rw [String.append_empty]
  | cons op ops ih =>
    show ((out.after op).afterAll ops).sink = _
    rw [ih]
    cases op with
    | text s =>
      show out.sink ++ String.ofList (indented out.margin.toList out.inLine s.toList)
        ++ String.ofList (scan out.unit (opensLine out.inLine s.toList) (written out.level ops))
          = _
      rw [written, scan_level, String.ofList_append, String.append_assoc]
      rfl
    | newline =>
      show out.sink ++ "\n" ++ String.ofList (scan out.unit false (written out.level ops)) = _
      rw [String.append_assoc, written, scan, if_pos rfl, String.ofList_cons]
      rfl
    | indent => rfl
    | unindent => rfl

/-- Text in pieces is the text they make up. -/
theorem afterAll_texts (pieces : List String) (ops : List Op) (out : Indenter String) :
    out.afterAll (pieces.map .text ++ ops) = out.afterAll (.text (String.join pieces) :: ops) := by
  induction pieces generalizing out with
  | nil =>
    show out.afterAll ops = (out.wrote (String.join []).toList).afterAll ops
    rw [String.join_nil, String.toList_empty, wrote_nil]
  | cons piece pieces ih =>
    show (out.wrote piece.toList).afterAll (pieces.map .text ++ ops) = _
    rw [ih]
    show ((out.wrote piece.toList).wrote (String.join pieces).toList).afterAll ops
      = (out.wrote (String.join (piece :: pieces)).toList).afterAll ops
    rw [String.join_cons, String.toList_append, wrote_append]

/-! ## Into any sink that keeps everything -/

section Sinks

variable {σ : Type} {contents : σ → String}

/-- The indenter with the text that its sink holds in the sink's place. -/
def view (contents : σ → String) (out : Indenter σ) : Indenter String :=
  ⟨out.unit, out.level, out.inLine, contents out.sink⟩

variable [Sink σ]

/-- The sink refuses nothing, and holds what it took in the order it came. -/
def KeepsAll (contents : σ → String) : Prop :=
  ∀ sink piece, ∃ next, Sink.accept sink piece = some next
    ∧ contents next = contents sink ++ piece

/-- A sink that keeps all takes every piece. -/
private theorem offer_of_keepsAll (h : KeepsAll contents) (sink : σ) (pieces : List String) :
    ∃ last, offer sink pieces = (true, last)
      ∧ contents last = contents sink ++ String.join pieces := by
  induction pieces generalizing sink with
  | nil =>
    refine ⟨sink, rfl, ?_⟩
    rw [String.join_nil, String.append_empty]
  | cons piece pieces ih =>
    obtain ⟨next, haccept, hcontents⟩ := h sink piece
    obtain ⟨last, hoffer, hlast⟩ := ih next
    refine ⟨last, ?_, ?_⟩
    · rw [offer, haccept]
      exact hoffer
    · rw [hlast, hcontents, String.join_cons, String.append_assoc]

/-- Whole runs into the sink end with the text that the same steps leave in a `String`. -/
theorem applyAll_view (h : KeepsAll contents) (ops : List Op) (out : Indenter σ) :
    ∃ next, applyAll ops out = (some (), next)
      ∧ next.view contents = (out.view contents).afterAll ops := by
  have hsink := (passes_applyAll ops).fromEmpty out
  have htext := (passes_applyAll ops).fromEmpty (out.view contents)
  obtain ⟨last, hlast, hcontents⟩ := offer_of_keepsAll h out.sink
    (applyAll ops (out.onto (WriteLog.mk []))).2.sink.pieces
  have hrun := htext.taken _ (offer_text (contents out.sink)
    (applyAll ops (out.onto (WriteLog.mk []))).2.sink.pieces)
  rw [applyAll_eq_afterAll] at hrun
  refine ⟨_, hsink.taken last hlast, ?_⟩
  rw [(Prod.mk.inj hrun).2, view, ← hcontents]
  rfl

end Sinks

private theorem steps_writes (pieces : List String) (calls : List Call) :
    Call.steps (pieces.map .write ++ calls) = pieces.map .text ++ Call.steps calls := by
  unfold Call.steps
  rw [List.flatMap_append, List.flatMap_map]
  exact congrArg (· ++ _) List.map_eq_flatMap.symm

/-- **An indenter works line by line**, whatever the pieces in which it gets the text: what
reaches a sink that keeps everything is the characters written, cut into lines, and every
line that is not empty behind the indentation for the level at its first character. A text
in pieces leaves the same text behind as the text in one, and an indenter that goes on in
the same way. -/
theorem indents_by_line {σ : Type} [Sink σ] {contents : σ → String} (h : KeepsAll contents) :
    (∀ (unit : String) (sink : σ) (calls : List Call),
        ∃ out, applyAll (Call.steps calls) (ofSink unit sink) = (some (), out)
          ∧ contents out.sink
            = contents sink ++ laidOut unit (written 0 (Call.steps calls)))
      ∧ ∀ (start : Indenter σ) (pieces : List String) (later : List Call),
          ∃ split whole,
            applyAll (Call.steps (pieces.map .write ++ later)) start = (some (), split)
              ∧ applyAll (Call.steps (.write (String.join pieces) :: later)) start
                = (some (), whole)
              ∧ split.view contents = whole.view contents := by
  constructor
  · intro unit sink calls
    obtain ⟨out, hrun, hview⟩ := applyAll_view h (Call.steps calls) (ofSink unit sink)
    refine ⟨out, hrun, ?_⟩
    have hsink := congrArg Indenter.sink hview
    rw [sink_afterAll] at hsink
    rw [← scan_eq_laidOut]
    exact hsink
  · intro start pieces later
    obtain ⟨split, hsplit, hsplitView⟩ :=
      applyAll_view h (Call.steps (pieces.map .write ++ later)) start
    obtain ⟨whole, hwhole, hwholeView⟩ :=
      applyAll_view h (Call.steps (.write (String.join pieces) :: later)) start
    refine ⟨split, whole, hsplit, hwhole, ?_⟩
    rw [hsplitView, hwholeView, steps_writes, afterAll_texts]
    rfl

/-- Calls that end pieces in the middle of a line and between line feeds, and change the
level there. -/
def brokenCalls : List Call :=
  [.indent, .write "a\n", .write "\nb", .unindent, .write "c\n", .unindent, .writeLine "d",
    .newline]

/-- Each line is indented by the level at which its first character was written. -/
theorem brokenCalls_indented :
    ∃ out : Indenter String, applyAll (Call.steps brokenCalls) (ofSink "  " "") = (some (), out)
      ∧ out.sink = "  a\n\n  bc\nd\n\n" := by
  have hkeeps : KeepsAll (id : String → String) := fun sink piece => ⟨sink ++ piece, rfl, rfl⟩
  obtain ⟨out, hrun, htext⟩ := (indents_by_line hkeeps).1 "  " "" brokenCalls
  refine ⟨out, hrun, htext.trans ?_⟩
  rfl

end Indenter

end Classdesk.Listing
