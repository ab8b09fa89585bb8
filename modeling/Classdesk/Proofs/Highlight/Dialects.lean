import Classdesk.Highlight.Dialect
import Classdesk.Proofs.Reading
import Classdesk.Proofs.Text.Replacing

/-!
# The built-in patterns compile

A set of patterns is compiled as a whole, and one source that is no expression would leave a
dialect without any. The built-in sources are made at run time out of keywords and mnemonics.
This file says that all of them are expressions:

> `Dialect.mem_patterns`: the patterns of a dialect are what its pairs compile to.

The literal notation of a text is an expression for every text, and stays one when each `_` is
let match a `-` too (`readable_literal`, `readable_dashed`), so nothing has to be known of the
words themselves.
-/

namespace Classdesk

namespace Pattern

/-! ## Readable sources -/

/-- The text can be read to its end, whatever items stand in front of it. -/
def Readable (flags : Flags) (cs : List Char) : Prop :=
  ∀ fuel items, cs.length < fuel → ∃ e, alternatives fuel flags [] items cs = .ok (e, [])

/-- Characters that have a meaning of their own. -/
def metaChars : List Char := ")|(*+?\x7b[.^$\\".toList

variable {flags : Flags} {cs : List Char} {c : Char}

private theorem readable_nil : Readable flags [] := by
  intro fuel items hfuel
  obtain ⟨fuel, rfl⟩ : ∃ n, fuel = n + 1 := ⟨fuel - 1, by omega⟩
  exact ⟨_, rfl⟩

/-- An item in front of a readable text. -/
theorem Readable.of_item (front : List Char) (item : Option Expr) {inner : Flags}
    (hfront : 0 < front.length)
    (hitem : ∀ fuel items, alternatives (fuel + 1) flags [] items (front ++ cs)
      = alternatives fuel inner [] (item :: items) cs)
    (h : Readable inner cs) : Readable flags (front ++ cs) := by
  intro fuel items hfuel
  rw [List.length_append] at hfuel
  obtain ⟨fuel, rfl⟩ : ∃ n, fuel = n + 1 := ⟨fuel - 1, by omega⟩
  rw [hitem]
  exact h fuel _ (by omega)

/-- A character without a meaning of its own stands for itself. -/
theorem Readable.plain (hc : c ∉ metaChars) (h : Readable flags cs) :
    Readable flags (c :: cs) := by
  have hne : ∀ d ∈ metaChars, c = d → False := fun d hd hcd => hc (hcd ▸ hd)
  refine h.of_item [c] (some (literal flags c)) Nat.one_pos fun fuel items => ?_
  rw [List.singleton_append, alternatives]
  case x_16 => exact fun _ _ hcd _ => hne _ (by decide) hcd
  case x_17 => exact fun hcd _ => hne _ (by decide) hcd
  all_goals exact hne _ (by decide)

/-- A backslash takes the meaning from the character behind it. -/
theorem Readable.escaped (hc : Escape.of? c = some (.char c)) (h : Readable flags cs) :
    Readable flags ('\\' :: c :: cs) := by
  refine h.of_item ['\\', c] (some (literal flags c)) Nat.two_pos fun fuel items => ?_
  show alternatives (fuel + 1) flags [] items ('\\' :: c :: cs) = _
  rw [alternatives, hc]

/-- A set of `-` and `_`. -/
theorem Readable.dashSet (h : Readable flags cs) : Readable flags ("[-_]".toList ++ cs) :=
  h.of_item _ (some (.chars ⟨[.range '-' '-', .range '_' '_'], false, flags.ignoreCase⟩))
    (by decide) fun _ _ => rfl

theorem Readable.ignoreCase (h : Readable { flags with ignoreCase := true } cs) :
    Readable flags ("(?i)".toList ++ cs) :=
  h.of_item _ none (by decide) fun _ _ => rfl

/-- A readable source is a pattern. -/
theorem Readable.parse {source : String} (h : Readable {} source.toList) :
    ∃ e, Expr.parse source = .ok e := by
  obtain ⟨e, he⟩ := h (source.toList.length + 1) [] (Nat.lt_succ_self _)
  refine ⟨e, ?_⟩
  rw [Expr.parse, he]
  rfl

end Pattern

namespace Highlight

open Reading (except_bind_eq_ok)
open Classdesk.Pattern (Readable metaChars Escape readable_nil)

/-! ## Literal notation -/

/-- Characters that the literal notation escapes. -/
def escapedChars : List Char := "\\.+*?()|[]\x7b\x7d^$#&-~".toList

/-- The literal notation of one character. -/
def literalChar (c : Char) : List Char := if escapedChars.contains c then ['\\', c] else [c]

private theorem toList_literalSource (text : String) :
    (literalSource text).toList = text.toList.flatMap literalChar :=
  String.toList_ofList

private theorem escapeOf_escapedChar {c : Char} (hc : c ∈ escapedChars) :
    Escape.of? c = some (.char c) := by
  have hall : escapedChars.all fun c =>
      c.toNat < 128 && !c.isAlphanum && c != '<' && c != '>' := by
    decide
  have hplain := List.all_eq_true.mp hall c hc
  unfold Escape.of?
  split
  case h_17 => exact if_pos hplain
  all_goals exact absurd hplain (by decide)

/-- A character of a literal is readable, escaped where it has to be. -/
private theorem readable_literalChar {flags : Pattern.Flags} {cs : List Char}
    (h : Readable flags cs) (c : Char) : Readable flags (literalChar c ++ cs) := by
  unfold literalChar
  split
  next hc => exact h.escaped (escapeOf_escapedChar (List.contains_iff_mem.mp hc))
  next hc =>
    have hall : metaChars.all escapedChars.contains := by decide
    exact h.plain fun hmeta => hc (List.all_eq_true.mp hall c hmeta)

/-- The literal notation of every text is an expression. -/
theorem readable_literal (flags : Pattern.Flags) (text : String) :
    Readable flags (literalSource text).toList := by
  rw [toList_literalSource]
  induction text.toList with
  | nil => exact readable_nil
  | cons c cs ih =>
    rw [List.flatMap_cons]
    exact readable_literalChar ih c

/-- It stays one when a `-` may stand for each `_`. -/
theorem readable_dashed (flags : Pattern.Flags) (text : String) :
    Readable flags (Text.replaceChar '_' "[-_]".toList (literalSource text).toList) := by
  rw [toList_literalSource]
  induction text.toList with
  | nil => exact readable_nil
  | cons c cs ih =>
    rw [List.flatMap_cons, Text.replaceChar_append]
    by_cases hc : c = '_'
    · rw [hc]
      exact ih.dashSet
    · have hkept : Text.replaceChar '_' "[-_]".toList (literalChar c) = literalChar c := by
        apply Text.replaceChar_of_not_mem
        unfold literalChar
        split <;> simp [Ne.symm hc]
      rw [hkept]
      exact readable_literalChar ih c

/-! ## The built-in sources -/

variable {source : String} {pair : String × String}

/-- Every keyword is a pattern. -/
private theorem parse_keyword {keywords : List String} (h : source ∈ keywords.map literalSource) :
    ∃ e, Pattern.Expr.parse source = .ok e := by
  obtain ⟨keyword, -, rfl⟩ := List.mem_map.mp h
  exact (readable_literal _ _).parse

/-- Mnemonics behind something that can stand in front of an expression. -/
theorem parse_mnemonic {front : String}
    (hfront : ∀ flags cs, Readable flags cs → Readable flags (front.toList ++ cs))
    (h : source ∈ mnemonicSources front) : ∃ e, Pattern.Expr.parse source = .ok e := by
  obtain ⟨mnemonic, -, rfl⟩ := List.mem_map.mp h
  have hdashed := readable_dashed { ignoreCase := true } mnemonic.toLower
  rw [← String.toList_ofList (l := Text.replaceChar ..)] at hdashed
  apply Readable.parse
  rw [String.toList_append, String.toList_append, List.append_assoc]
  exact Readable.ignoreCase (hfront _ _ hdashed)

private theorem parse_of_isOk (h : (Pattern.Expr.parse source).isOk = true) :
    ∃ e, Pattern.Expr.parse source = .ok e := by
  cases hparse : Pattern.Expr.parse source with
  | ok e => exact ⟨e, rfl⟩
  | error fault =>
    rw [hparse] at h
    cases h

/-- So is every pattern that is written out. -/
private theorem parse_fixed (h : pair ∈ commonPairs ++ scriptPairs) :
    ∃ e, Pattern.Expr.parse pair.1 = .ok e := by
  have hall : ∀ pair ∈ commonPairs ++ scriptPairs, (Pattern.Expr.parse pair.1).isOk = true := by
    decide +kernel
  exact parse_of_isOk (hall pair h)

private theorem fst_of_mem_labelled {label : String} {sources : List String}
    (h : pair ∈ labelled label sources) : pair.1 ∈ sources := by
  obtain ⟨source, hsource, rfl⟩ := List.mem_map.mp h
  exact hsource

/-- All sources of a dialect are expressions. -/
theorem Dialect.parse_pairs (d : Dialect) (h : pair ∈ d.pairs) :
    ∃ e, Pattern.Expr.parse pair.1 = .ok e := by
  cases d with
  | java =>
    rcases List.mem_append.mp h with h | h
    · exact parse_keyword (fst_of_mem_labelled h)
    · exact parse_fixed (by simp [h])
  | patch =>
    simp only [pairs, List.mem_append, List.mem_cons] at h
    rcases h with ((((h | h) | rfl | h) | rfl | h) | h) | h
    · exact parse_keyword (fst_of_mem_labelled h)
    · exact parse_mnemonic (fun _ _ => .escaped rfl) (fst_of_mem_labelled h)
    · exact parse_of_isOk (by decide +kernel)
    · exact parse_mnemonic (fun _ _ => .escaped rfl) (fst_of_mem_labelled h)
    · exact parse_of_isOk (by decide +kernel)
    · exact parse_mnemonic (fun _ _ => .plain (by decide)) (fst_of_mem_labelled h)
    · exact parse_fixed (List.mem_append_left _ h)
    · exact parse_fixed (List.mem_append_right _ h)

/-! ## The built-in sets -/

/-- A set compiles if each of its sources is an expression. -/
theorem PatternSet.compile_ok {pairs : List (String × String)}
    (h : ∀ pair ∈ pairs, ∃ e, Pattern.Expr.parse pair.1 = .ok e) :
    ∃ patterns, PatternSet.compile pairs = .ok patterns := by
  induction pairs with
  | nil => exact ⟨[], rfl⟩
  | cons pair pairs ih =>
    obtain ⟨e, he⟩ := h pair List.mem_cons_self
    obtain ⟨patterns, hpatterns⟩ := ih fun pair hpair => h pair (List.mem_cons_of_mem _ hpair)
    refine ⟨⟨e.toRegex pair.1, pair.2⟩ :: patterns, ?_⟩
    rw [PatternSet.compile, Pattern.compile, Pattern.Regex.compile, he, hpatterns]
    rfl

/-- The patterns of a set are what its pairs compile to. -/
theorem PatternSet.mem_of_compile {pairs : List (String × String)} {patterns : PatternSet}
    (h : PatternSet.compile pairs = .ok patterns) (p : Pattern) :
    p ∈ patterns ↔ ∃ pair ∈ pairs, Pattern.compile pair.1 pair.2 = .ok p := by
  induction pairs generalizing patterns with
  | nil =>
    cases h
    simp
  | cons pair pairs ih =>
    rw [PatternSet.compile, except_bind_eq_ok] at h
    obtain ⟨first, hfirst, h⟩ := h
    obtain ⟨rest, hrest, h⟩ := except_bind_eq_ok.mp h
    cases h
    simp only [List.mem_cons, ih hrest, exists_eq_or_imp, hfirst, Except.ok.injEq,
      @eq_comm _ first p]

theorem Dialect.compile_pairs (d : Dialect) : PatternSet.compile d.pairs = .ok d.patterns := by
  obtain ⟨patterns, hpatterns⟩ := PatternSet.compile_ok fun _ => d.parse_pairs
  have hcompiled : d.compiled = patterns := by
    rw [compiled, hpatterns]
  rw [hpatterns, ← hcompiled]
  cases d with
  | java => rfl
  | patch => rfl

/-- **The patterns of a dialect** are what its pairs compile to, each of them. -/
theorem Dialect.mem_patterns (d : Dialect) (p : Pattern) :
    p ∈ d.patterns ↔ ∃ pair ∈ d.pairs, Pattern.compile pair.1 pair.2 = .ok p :=
  PatternSet.mem_of_compile d.compile_pairs p

end Highlight

end Classdesk
