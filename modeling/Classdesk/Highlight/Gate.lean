/-!
# The gate in front of the display

Results of highlighting arrive in any order. A result may pass if nothing with
the same or a later sequence number was applied, and the text has not changed
since its snapshot was taken.
-/

namespace Classdesk.Highlight

/-- What decides whether a result is still worth showing. -/
structure Gate where
  /-- The sequence number applied last. -/
  lastApplied : Option Nat
  deriving DecidableEq, Repr

/-- A result that came too late. -/
structure Stale where
  sequence : Nat
  lastApplied : Option Nat
  textChanged : Bool
  deriving DecidableEq, Repr

/-- The wording for a result that came too late. -/
def Stale.message (s : Stale) : String :=
  let applied :=
    match s.lastApplied with
    | some last => s!" (already applied #{last})"
    | none => ""
  let changed := if s.textChanged then " (text changed since snapshot)" else ""
  s!"Discarded stale highlighting result #{s.sequence}{applied}{changed}"

namespace Gate

/-- A gate that nothing has passed. -/
def fresh : Gate := ⟨none⟩

/-- Whether a result may pass. -/
def check (gate : Gate) (sequence generation current : Nat) : Except Stale Unit :=
  let superseded := gate.lastApplied.any (sequence ≤ ·)
  let textChanged := generation != current
  if superseded || textChanged then .error ⟨sequence, gate.lastApplied, textChanged⟩
  else .ok ()

/-- Let a result pass, and remember it, if it may. -/
def pass (gate : Gate) (sequence generation current : Nat) : Except Stale Gate :=
  (gate.check sequence generation current).map fun () => ⟨some sequence⟩

end Gate

end Classdesk.Highlight
