import Classdesk.Proofs.Listing.Indentation

/-!
# Writes and refusals

What an indenter passes on to its sink does not depend on the sink, except that it ends where
the sink refuses. To say this, the same steps are taken twice: with the sink, and with a
`WriteLog` in its place, which refuses nothing and remembers every write. The writes that the
log has got in the end are `offer`ed to the sink, which takes them up to the first that it
refuses:

> `Passes x y done failed`: if the sink takes all writes of `y`, `x` ends as `y` does, with the
> result `done`; if the sink refuses one, `x` ends there, with the result `failed`.

This holds for every step of an indenter and for whole runs (`passes_applyAll`, `passes_run`),
because two steps in a row have it if both have it (`Passes.seq`).
-/

namespace Classdesk.Listing

/-! ## Sinks -/

/-- The writes that were made, in order. -/
structure WriteLog where
  pieces : List String

/-- A log refuses nothing. -/
instance : Sink WriteLog where
  accept log piece := some ⟨log.pieces ++ [piece]⟩

section Offers

variable {σ : Type} [Sink σ]

/-- Give some pieces to a sink, up to the first that it refuses: whether it took all of them,
and the sink behind those it took. -/
def offer (sink : σ) : List String → Bool × σ
  | [] => (true, sink)
  | piece :: pieces =>
    match Sink.accept sink piece with
    | some next => offer next pieces
    | none => (false, sink)

private theorem offer_append (sink : σ) (xs ys : List String) :
    offer sink (xs ++ ys)
      = match offer sink xs with
        | (true, next) => offer next ys
        | (false, stop) => (false, stop) := by
  induction xs generalizing sink with
  | nil => rfl
  | cons piece xs ih =>
    rw [List.cons_append, offer, offer]
    cases Sink.accept sink piece with
    | none => rfl
    | some next => exact ih next

end Offers

/-- A text takes all pieces. -/
theorem offer_text (text : String) (pieces : List String) :
    offer text pieces = (true, text ++ String.join pieces) := by
  induction pieces generalizing text with
  | nil => rw [offer, String.join_nil, String.append_empty]
  | cons piece pieces ih =>
    rw [offer, String.join_cons, ← String.append_assoc]
    exact ih (text ++ piece)

/-- The indenter with another sink. -/
def Indenter.onto {σ τ : Type} (out : Indenter σ) (sink : τ) : Indenter τ :=
  ⟨out.unit, out.level, out.inLine, sink⟩

/-! ## Steps -/

section Steps

variable {σ ρ : Type} [Sink σ]

/-- A run that ended as `ran` made writes, `pieces`, to a sink. Into a log, it ended as
`logged`. -/
structure PassesAt (sink : σ) (log : WriteLog) (done failed : ρ) (ran : ρ × Indenter σ)
    (logged : ρ × Indenter WriteLog) (pieces : List String) (next : Indenter WriteLog) :
    Prop where
  logged_eq : logged = (done, next)
  pieces_eq : next.sink.pieces = log.pieces ++ pieces
  taken : ∀ last, offer sink pieces = (true, last) → ran = (done, next.onto last)
  refused : ∀ last, offer sink pieces = (false, last) →
    ∃ stop, ran = (failed, stop) ∧ stop.sink = last

/-- Wherever they start, the first run makes the writes that the second one logs. -/
def Passes (x : Indenter σ → ρ × Indenter σ) (y : Indenter WriteLog → ρ × Indenter WriteLog)
    (done failed : ρ) : Prop :=
  ∀ out log, ∃ pieces next,
    PassesAt out.sink log done failed (x out) (y (out.onto log)) pieces next

/-- A run that makes no writes. -/
theorem passesAt_nil {sink : σ} {log : WriteLog} {done failed : ρ} {ran : ρ × Indenter σ}
    {logged : ρ × Indenter WriteLog} {next : Indenter WriteLog} (hlogged : logged = (done, next))
    (hlog : next.sink = log) (hran : ran = (done, next.onto sink)) :
    PassesAt sink log done failed ran logged [] next where
  logged_eq := hlogged
  pieces_eq := by rw [hlog, List.append_nil]
  taken last hlast := by
    cases hlast
    exact hran
  refused last hlast := by cases hlast

/-- From an empty log, the pieces are what is in the log in the end. -/
theorem Passes.fromEmpty {x : Indenter σ → ρ × Indenter σ}
    {y : Indenter WriteLog → ρ × Indenter WriteLog} {done failed : ρ}
    (h : Passes x y done failed) (out : Indenter σ) :
    PassesAt out.sink ⟨[]⟩ done failed (x out) (y (out.onto ⟨[]⟩))
      (y (out.onto ⟨[]⟩)).2.sink.pieces (y (out.onto ⟨[]⟩)).2 := by
  obtain ⟨pieces, next, hpasses⟩ := h out ⟨[]⟩
  have hnext : (y (out.onto ⟨[]⟩)).2 = next := by rw [hpasses.logged_eq]
  have hpieces : next.sink.pieces = pieces := hpasses.pieces_eq
  rw [hnext, hpieces]
  exact hpasses

/-- The run `z` goes on with `x'` where the step `x` ended, and ends where that failed. -/
def Continues {τ : Type} (x : Output τ Unit) (x' z : Indenter τ → ρ × Indenter τ) (failed : ρ) :
    Prop :=
  ∀ out, z out = match x out with
    | (some _, next) => x' next
    | (none, stop) => (failed, stop)

/-- A run that goes on behind a step makes the writes of both. -/
theorem Passes.seq {x : Output σ Unit} {y : Output WriteLog Unit}
    {x' z : Indenter σ → ρ × Indenter σ} {y' w : Indenter WriteLog → ρ × Indenter WriteLog}
    {done failed : ρ} (h : Passes x y (some ()) none) (h' : Passes x' y' done failed)
    (hz : Continues x x' z failed) (hw : Continues y y' w failed) : Passes z w done failed := by
  intro out log
  obtain ⟨xs, mid, hfirst⟩ := h out log
  cases hoffer : offer out.sink xs with
  | mk all sink =>
    -- The second run starts from the sink that the first one left.
    obtain ⟨ys, next, hsecond⟩ := h' (mid.onto sink) mid.sink
    have hlogged : w (out.onto log) = (done, next) := by
      rw [hw, hfirst.logged_eq]
      exact hsecond.logged_eq
    have hpieces : next.sink.pieces = log.pieces ++ (xs ++ ys) := by
      rw [hsecond.pieces_eq, hfirst.pieces_eq, List.append_assoc]
    refine ⟨xs ++ ys, next, hlogged, hpieces, ?_, ?_⟩
    all_goals
      intro last hlast
      rw [offer_append, hoffer] at hlast
      rw [hz]
    · cases all with
      | false => cases hlast
      | true =>
        rw [hfirst.taken sink hoffer]
        exact hsecond.taken last hlast
    · cases all with
      | false =>
        cases hlast
        obtain ⟨stop, hstop, hsink⟩ := hfirst.refused sink hoffer
        rw [hstop]
        exact ⟨stop, rfl, hsink⟩
      | true =>
        rw [hfirst.taken sink hoffer]
        exact hsecond.refused last hlast

end Steps

namespace Indenter

variable {σ : Type} [Sink σ]

/-- A step makes the writes that the same step logs. -/
def PassesOn (x : Output σ Unit) (y : Output WriteLog Unit) : Prop := Passes x y (some ()) none

private theorem passes_pure : PassesOn (pure () : Output σ Unit) (pure ()) :=
  fun out log => ⟨[], out.onto log, passesAt_nil rfl rfl rfl⟩

private theorem continues_bind {τ : Type} (x : Output τ Unit) (x' : Unit → Output τ Unit) :
    Continues x (x' ()) (x >>= x') none := by
  intro out
  rw [bind_run]
  cases x out with
  | mk result next =>
    cases result with
    | none => rfl
    | some u => rfl

/-- Steps in sequence make the writes they log if each of them does. -/
theorem PassesOn.bind {x : Output σ Unit} {y : Output WriteLog Unit} {x' : Unit → Output σ Unit}
    {y' : Unit → Output WriteLog Unit} (h : PassesOn x y) (h' : ∀ u, PassesOn (x' u) (y' u)) :
    PassesOn (x >>= x') (y >>= y') :=
  h.seq (h' ()) (continues_bind x x') (continues_bind y y')

/-- A step that writes nothing passes if it does the same to both indenters. -/
private theorem passes_modify {f : Indenter σ → Indenter σ}
    {g : Indenter WriteLog → Indenter WriteLog} (hlog : ∀ out, (g out).sink = out.sink)
    (hsame : ∀ (out : Indenter σ) (log : WriteLog), f out = (g (out.onto log)).onto out.sink) :
    PassesOn (modify f) (modify g) := by
  intro out log
  refine ⟨[], g (out.onto log), passesAt_nil rfl (hlog _) ?_⟩
  show (some (), f out) = _
  rw [hsame out log]

/-- The only step that writes: the sink is offered the piece that is logged. -/
private theorem passes_emit (piece : String) :
    PassesOn (emit piece : Output σ Unit) (emit piece) := by
  intro out log
  refine ⟨[piece], out.onto ⟨log.pieces ++ [piece]⟩, rfl, rfl, ?_, ?_⟩
  all_goals
    intro last hlast
    rw [offer] at hlast
    unfold emit
    cases haccept : Sink.accept out.sink piece
    all_goals rw [haccept] at hlast
  case refine_1.none => cases hlast
  case refine_1.some next =>
    cases hlast
    rfl
  case refine_2.none =>
    cases hlast
    exact ⟨out, rfl, rfl⟩
  case refine_2.some next => cases hlast

private theorem passes_emitUnits (n : Nat) :
    PassesOn (emitUnits n : Output σ Unit) (emitUnits n) := by
  induction n with
  | zero => exact passes_pure
  | succ n ih =>
    intro out
    -- The text of a level is read from the indenter, which is the same on both sides.
    exact ((passes_emit out.unit).bind fun _ => ih) out

private theorem passes_startLine : PassesOn (startLine : Output σ Unit) startLine := by
  intro out log
  have hrest := (passes_emitUnits out.level).bind fun _ =>
    (passes_modify (fun _ => rfl) fun _ _ => rfl :
      PassesOn (modify fun out : Indenter σ => { out with inLine := true })
        (modify fun out => { out with inLine := true }))
  show ∃ pieces next, PassesAt out.sink log (some ()) none
    ((if out.inLine = true then pure () else _ : Output σ Unit) out)
    ((if out.inLine = true then pure () else _ : Output WriteLog Unit) (out.onto log)) pieces next
  by_cases hin : out.inLine = true
  · rw [if_pos hin, if_pos hin]
    exact passes_pure out log
  · rw [if_neg hin, if_neg hin]
    exact hrest out log

private theorem passes_writePiece (piece : List Char) :
    PassesOn (writePiece piece : Output σ Unit) (writePiece piece) := by
  have hflag : PassesOn
      (modify fun out : Indenter σ => { out with inLine := piece.getLast? != some '\n' })
      (modify fun out => { out with inLine := piece.getLast? != some '\n' }) :=
    passes_modify (fun _ => rfl) fun _ _ => rfl
  have hrest := (passes_emit (String.ofList piece)).bind fun _ => hflag
  unfold writePiece
  by_cases hpiece : piece = ['\n']
  · rw [if_neg (not_not_intro hpiece), if_neg (not_not_intro hpiece)]
    exact hrest
  · rw [if_pos hpiece, if_pos hpiece]
    exact passes_startLine.bind fun _ => hrest

private theorem passes_writePieces (pieces : List (List Char)) :
    PassesOn (writePieces pieces : Output σ Unit) (writePieces pieces) := by
  induction pieces with
  | nil => exact passes_pure
  | cons piece pieces ih => exact (passes_writePiece piece).bind fun _ => ih

/-- Every step makes the writes that it logs. -/
theorem passes_apply (op : Op) : PassesOn (apply op : Output σ Unit) (apply op) := by
  cases op with
  | text s => exact passes_writePieces _
  | newline =>
    exact (passes_emit "\n").bind fun _ => passes_modify (fun _ => rfl) fun _ _ => rfl
  | indent => exact passes_modify (fun _ => rfl) fun _ _ => rfl
  | unindent => exact passes_modify (fun _ => rfl) fun _ _ => rfl

/-- Any list of steps makes the writes that it logs, until the sink refuses one. -/
theorem passes_applyAll (ops : List Op) :
    PassesOn (applyAll ops : Output σ Unit) (applyAll ops) := by
  induction ops with
  | nil => exact passes_pure
  | cons op ops ih => exact (passes_apply op).bind fun _ => ih

end Indenter

end Classdesk.Listing
