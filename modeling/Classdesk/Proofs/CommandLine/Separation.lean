import Classdesk.CommandLine.Execute
import Classdesk.Proofs.Listing.LineCount
import Classdesk.Proofs.Reading

/-!
# Listings of several sources

Printing goes on behind a source that fails. What should be on the output is `blocks`: the
listings of the others in order, under a line with their path if there were several sources,
and an empty line between each two of them. What is on the output depends on one more thing,
since a listing has its empty line in front because of its place among all sources and not
because of a listing before it:

> `printAll_separates`: the output is `blocks` with an empty line between each two, behind
> one more empty line if the first source failed and a later one did not.

Errors are not touched by this. Every source that fails is reported once, their number is
reported in the end, and the command fails exactly if there is one.
-/

namespace Classdesk.CommandLine

open Listing (intercalate_cons ends_of_print)

/-! ## What should be printed -/

/-- Whether there is no listing of a source. -/
def Printed.failed (p : Printed) : Bool := p.error?.isSome

/-- The listing of a source, under a line with its path if there are several. -/
def Printed.block? (several : Bool) (p : Printed) : Option String :=
  match p.result with
  | .ok listing => some ((if several then s!"// {p.path}\n" else "") ++ listing)
  | .error _ => none

/-- The listings of the sources that have one, in order. -/
def blocks (sources : List Printed) : List String :=
  sources.filterMap (Printed.block? (sources.length > 1))

/-- How many sources have no listing. -/
def failures (sources : List Printed) : Nat := sources.countP Printed.failed

/-- The first source failed, and another one did not. -/
def startsLate (sources : List Printed) : Bool :=
  sources.head?.any Printed.failed && sources.any fun p => !p.failed

/-- A listing is complete: its last line is a closing brace, so a line feed behind it is one
empty line. -/
def Printed.Complete (p : Printed) : Prop :=
  ∀ listing, p.result = .ok listing → ∃ front, listing = front ++ "\x7d\n"

/-- What printing some sources comes to. -/
structure PrintsSeparated (sources : List Printed) (outcome : Outcome) : Prop where
  output : outcome.output
    = (if startsLate sources then "\n" else "") ++ "\n".intercalate (blocks sources)
  /-- Nothing but the listings and one empty line between each two is printed unless the first
  of them is late. -/
  separated_iff : outcome.output = "\n".intercalate (blocks sources) ↔ startsLate sources = false
  blocks_end : ∀ block ∈ blocks sources, ∃ front, block = front ++ "\x7d\n"
  /-- Each failed source is reported once, and their number in the end. -/
  errors : outcome.errors = String.join (sources.filterMap Printed.error?)
    ++ (if 0 < failures sources then s!"{failures sources} input(s) could not be printed\n" else "")
  exit : outcome.exit = if 0 < failures sources then 1 else 0

/-! ## Blocks and their places -/

/-- At a place that is not the first, a listing has an empty line in front. -/
theorem output_succ (several : Bool) (place : Nat) (p : Printed) :
    p.output several (place + 1) = ((p.block? several).map ("\n" ++ ·)).getD "" := by
  unfold Printed.output Printed.block?
  cases p.result with
  | error message => rfl
  | ok listing =>
    simp [String.append_assoc]

/-- At the first place, a listing has nothing in front. -/
private theorem output_zero (several : Bool) (p : Printed) :
    p.output several 0 = (p.block? several).getD "" := by
  unfold Printed.output Printed.block?
  cases p.result with
  | error message => rfl
  | ok listing => simp

private theorem failed_iff (several : Bool) (p : Printed) :
    p.failed = (p.block? several).isNone := by
  unfold Printed.failed Printed.error? Printed.block?
  cases p.result with
  | error message => rfl
  | ok listing => rfl

/-- Behind the first place, every listing has its empty line. -/
theorem join_later (several : Bool) (sources : List Printed) (place : Nat) :
    String.join ((sources.zipIdx (place + 1)).map fun (p, place) => p.output several place)
      = String.join ((sources.filterMap (Printed.block? several)).map ("\n" ++ ·)) := by
  induction sources generalizing place with
  | nil => rfl
  | cons p sources ih =>
    rw [List.zipIdx_cons, List.map_cons, String.join_cons, ih]
    show p.output several (place + 1) ++ _ = _
    rw [output_succ]
    cases hblock : p.block? several with
    | none =>
      rw [List.filterMap_cons_none hblock]
      exact String.empty_append
    | some block =>
      rw [List.filterMap_cons_some hblock, List.map_cons, String.join_cons]
      rfl

/-- Late listings have an empty line in front of them all. -/
theorem join_late (texts : List String) :
    String.join (texts.map ("\n" ++ ·))
      = (if texts.isEmpty then "" else "\n") ++ "\n".intercalate texts := by
  cases texts with
  | nil => rfl
  | cons first others =>
    rw [List.map_cons, String.join_cons, intercalate_cons, String.append_assoc]
    rfl

private theorem any_listed (several : Bool) (sources : List Printed) :
    (sources.any fun p => !p.failed) = !(sources.filterMap (Printed.block? several)).isEmpty := by
  induction sources with
  | nil => rfl
  | cons p sources ih =>
    rw [List.any_cons, ih, failed_iff several]
    cases hblock : p.block? several with
    | none =>
      rw [List.filterMap_cons_none hblock]
      rfl
    | some block =>
      rw [List.filterMap_cons_some hblock]
      rfl

/-- The listings in a row, wherever the first of them stands. -/
theorem join_outputs (several : Bool) (sources : List Printed) :
    String.join (sources.zipIdx.map fun (p, place) => p.output several place)
      = (if startsLate sources then "\n" else "")
        ++ "\n".intercalate (sources.filterMap (Printed.block? several)) := by
  cases sources with
  | nil => rfl
  | cons p sources =>
    rw [List.zipIdx_cons, List.map_cons, String.join_cons, join_later]
    show p.output several 0 ++ _ = _
    rw [output_zero, startsLate, any_listed several, List.head?_cons, Option.any_some,
      failed_iff several]
    cases hblock : p.block? several with
    | none =>
      -- Nothing is printed for the first source, so an empty line comes first.
      rw [List.filterMap_cons_none hblock, join_late]
      cases (sources.filterMap (Printed.block? several)).isEmpty with
      | true => exact String.empty_append
      | false => exact String.empty_append
    | some block =>
      rw [List.filterMap_cons_some hblock, intercalate_cons]
      exact String.empty_append.symm

/-! ## Errors -/

/-- Each failed source is reported once. -/
private theorem length_errors (sources : List Printed) :
    (sources.filterMap Printed.error?).length = failures sources := by
  rw [List.length_filterMap_eq_countP]
  rfl

private theorem errors_isEmpty (sources : List Printed) :
    (sources.filterMap Printed.error?).isEmpty = true ↔ ¬ 0 < failures sources := by
  rw [← length_errors, List.isEmpty_iff_length_eq_zero, Nat.pos_iff_ne_zero, not_not]

/-! ## Commands -/

/-- What a source is printed as is a whole listing. -/
theorem listingOf_complete (env : Environment) (source : Editor.ClassSource) :
    Printed.Complete ⟨source.displayPath.text, listingOf env source⟩ := by
  intro listing h
  obtain ⟨bytes, -, hparse⟩ := Reading.except_bind_eq_ok.mp h
  obtain ⟨declaration, -, hprint⟩ := Reading.except_bind_eq_ok.mp hparse
  cases hresult : Listing.Printer.standard.print declaration with
  | error fault =>
    rw [hresult] at hprint
    cases hprint
  | ok text =>
    rw [hresult] at hprint
    cases hprint
    exact ends_of_print hresult

/-- A path above a listing leaves its last line as it is. -/
theorem blocks_complete {sources : List Printed} (h : ∀ p ∈ sources, p.Complete) :
    ∀ block ∈ blocks sources, ∃ front, block = front ++ "\x7d\n" := by
  intro block hblock
  obtain ⟨p, hp, hsome⟩ := List.mem_filterMap.mp hblock
  unfold Printed.block? at hsome
  split at hsome
  next listing hresult =>
    obtain ⟨front, rfl⟩ := h p hp listing hresult
    cases hsome
    exact ⟨_, (String.append_assoc ..).symm⟩
  next => cases hsome

/-- **Listings are separated by one empty line**, whatever sources fail, and are all that is
printed unless the first source fails and a later one does not: then one empty line comes before
the first listing. Sources are printed to whole listings or fail. -/
theorem printAll_separates (env : Environment) (sources : List Printed) :
    (∀ source, Printed.Complete ⟨source.displayPath.text, listingOf env source⟩)
      ∧ ((∀ p ∈ sources, p.Complete) → PrintsSeparated sources (printAll sources)) := by
  refine ⟨listingOf_complete env, fun hcomplete => ?_⟩
  have houtput : (printAll sources).output
      = (if startsLate sources then "\n" else "") ++ "\n".intercalate (blocks sources) :=
    join_outputs _ sources
  refine ⟨houtput, ?_, blocks_complete hcomplete, ?_, ?_⟩
  · rw [houtput]
    cases startsLate sources with
    | true =>
      -- A text with one more line feed in front is longer.
      have hlonger : "\n" ++ "\n".intercalate (blocks sources)
          ≠ "\n".intercalate (blocks sources) := by
        intro heq
        have hchars := congrArg String.toList heq
        rw [String.toList_append] at hchars
        exact List.cons_ne_self _ _ hchars
      exact iff_of_false hlonger (by decide)
    | false => exact iff_of_true String.empty_append rfl
  · show String.join (sources.filterMap Printed.error?) ++ (if _ then _ else _) = _
    rw [length_errors]
    simp only [errors_isEmpty, ite_not]
  · show (if _ then _ else _) = _
    simp only [errors_isEmpty, ite_not]

/-- A directory with a file that is no class and a class that is called `A`. -/
def badBesideGood : Environment where
  home := ⟨"/"⟩
  styled := false
  files := ((FileTree.empty []).addAt ⟨"Bad.class"⟩ [0xCA, 0xFE, 0xBA, 0xBF] false).addAt
    ⟨"Good.class"⟩
    [0xCA, 0xFE, 0xBA, 0xBE, 0, 0, 0, 52, 0, 3, 1, 0, 1, 0x41, 7, 0, 1, 0, 0x20, 0, 2,
      0, 0, 0, 0, 0, 0, 0, 0, 0, 0] false
  launch := fun _ _ _ => .error .notFound

/-- Four sources of which the first and the third fail. -/
def everySecond : List Printed :=
  [⟨"A.class", .error "No such file"⟩, ⟨"B.class", .ok "class B \x7b\n\x7d\n"⟩,
    ⟨"C.class", .error "No such file"⟩, ⟨"D.class", .ok "class D \x7b\n\x7d\n"⟩]

/-- The source that fails between two listings leaves one empty line, the one that fails before
them leaves one too. -/
theorem everySecond_separated :
    (∀ p ∈ everySecond, p.Complete)
      ∧ (printAll everySecond).output
        = "\n" ++ "\n".intercalate
          ["// B.class\nclass B \x7b\n\x7d\n", "// D.class\nclass D \x7b\n\x7d\n"]
      ∧ (printAll everySecond).exit = 1 := by
  have hcomplete : ∀ p ∈ everySecond, p.Complete := by
    simp only [everySecond, List.forall_mem_cons, Printed.Complete]
    refine ⟨nofun, ?_, nofun, ?_, by simp⟩
    · rintro _ ⟨⟩
      exact ⟨"class B \x7b\n", rfl⟩
    · rintro _ ⟨⟩
      exact ⟨"class D \x7b\n", rfl⟩
  have h := (printAll_separates badBesideGood everySecond).2 hcomplete
  exact ⟨hcomplete, h.output, h.exit⟩

/-- The listing behind a failed source has an empty line in front, though it is the first. -/
theorem badBesideGood_starts_late :
    run badBesideGood ["print", "Bad.class", "Good.class"]
      = ⟨1, "\n// Good.class\nclass A \x7b\n\x7d\n",
          "Bad.class: Bad magic number 0xCAFEBABF\n1 input(s) could not be printed\n"⟩ := by
  decide +kernel

end Classdesk.CommandLine
