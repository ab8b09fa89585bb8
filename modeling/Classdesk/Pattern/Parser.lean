import Classdesk.Pattern.Expr

/-!
# Reading regular expressions

The usual notation: literals, `\` escapes, `.`, sets in brackets, groups,
alternatives, `* + ?` and counts in braces with a lazy `?` behind them, `^`, `$`,
`\b`, and the flags `i`, `m`, `s` and `U`. A flag group holds up to the end of
the group it stands in. There is no look-around and no reference to a group, and sets
are neither nested nor combined.
-/

namespace Classdesk.Pattern

/-- Why a text is not a regular expression. -/
inductive SyntaxFault
  | unclosedGroup
  | unopenedGroup
  | unclosedSet
  | badSet
  | badRange
  | badEscape
  | nothingToRepeat
  | badCount
  | badGroup
  deriving DecidableEq, Repr

/-- What flags in a pattern can switch. -/
structure Flags where
  ignoreCase : Bool := false
  multiLine : Bool := false
  dotAll : Bool := false
  swapGreed : Bool := false
  deriving DecidableEq, Repr

/-! ## Escapes -/

/-- What an escape stands for. -/
inductive Escape
  | char (c : Char)
  | category (kind : Category) (negated : Bool)
  | look (condition : Look)

/-- The meaning of the character behind a backslash. -/
def Escape.of? (c : Char) : Option Escape :=
  match c with
  | 'n' => some (.char '\n')
  | 't' => some (.char '\t')
  | 'r' => some (.char '\r')
  | 'a' => some (.char '\x07')
  | 'f' => some (.char '\x0c')
  | 'v' => some (.char '\x0b')
  | 'd' => some (.category .digit false)
  | 'D' => some (.category .digit true)
  | 's' => some (.category .white false)
  | 'S' => some (.category .white true)
  | 'w' => some (.category .word false)
  | 'W' => some (.category .word true)
  | 'b' => some (.look .wordEdge)
  | 'B' => some (.look .noWordEdge)
  | 'A' => some (.look .textStart)
  | 'z' => some (.look .textEnd)
  | c =>
    if c.toNat < 128 && !c.isAlphanum && c != '<' && c != '>' then some (.char c) else none

/-! ## Sets -/

/-- Read one member of a set; an escape may stand for several characters. -/
def setMember : List Char → Except SyntaxFault (SetItem × List Char)
  | [] => .error .unclosedSet
  | '\\' :: [] => .error .unclosedSet
  | '\\' :: c :: cs =>
    match Escape.of? c with
    | some (.char c) => .ok (.range c c, cs)
    | some (.category kind negated) => .ok (.category kind negated, cs)
    | _ => .error .badEscape
  | '[' :: _ => .error .badSet
  | c :: cs => .ok (.range c c, cs)

/-- Read one member of a set, or a range of two. A `-` that is last or doubled
is no range. -/
def setItem (cs : List Char) : Except SyntaxFault (SetItem × List Char) := do
  let (item, cs) ← setMember cs
  match cs with
  | '-' :: ']' :: _ | '-' :: '-' :: _ => .ok (item, cs)
  | '-' :: cs => do
    let (other, cs) ← setMember cs
    match item, other with
    | .range low _, .range high _ =>
      if low ≤ high then .ok (.range low high, cs) else .error .badRange
    | _, _ => .error .badRange
  | cs => .ok (item, cs)

/-- Read members up to the closing bracket. A doubled `&`, `-` or `~` would combine sets. -/
def setItems : (fuel : Nat) → List Char → Except SyntaxFault (List SetItem × List Char)
  | 0, _ | _, [] => .error .unclosedSet
  | _, ']' :: cs => .ok ([], cs)
  | _, '&' :: '&' :: _ | _, '-' :: '-' :: _ | _, '~' :: '~' :: _ => .error .badSet
  | fuel + 1, cs => do
    let (item, cs) ← setItem cs
    let (items, cs) ← setItems fuel cs
    .ok (item :: items, cs)

/-- Read a set behind its opening bracket. A `-` or a `]` in front is literal. -/
def charSet (flags : Flags) (cs : List Char) : Except SyntaxFault (CharSet × List Char) := do
  let negated := cs.head? == some '^'
  let cs := if negated then cs.drop 1 else cs
  let dashes := cs.takeWhile (· == '-')
  let cs := cs.drop dashes.length
  let (bracket, cs) :=
    match dashes, cs with
    | [], ']' :: cs => ([']'], cs)
    | _, cs => ([], cs)
  let (items, cs) ← setItems (cs.length + 1) cs
  let front := (dashes ++ bracket).map fun c => SetItem.range c c
  .ok (⟨front ++ items, negated, flags.ignoreCase⟩, cs)

/-! ## Counts -/

/-- Drop blanks in front. -/
def skipBlanks (cs : List Char) : List Char := cs.dropWhile Text.isWhite

/-- Read a number with blanks around it. -/
def decimal (cs : List Char) : Except SyntaxFault (Nat × List Char) :=
  let cs := skipBlanks cs
  let digits := cs.takeWhile Char.isDigit
  if digits.isEmpty then .error .badCount
  else
    let n := digits.foldl (fun n c => n * 10 + (c.toNat - 48)) 0
    .ok (n, skipBlanks (cs.drop digits.length))

/-- Read a count behind its opening brace. -/
def count (cs : List Char) : Except SyntaxFault (Nat × Option Nat × List Char) := do
  let (low, cs) ← decimal cs
  match cs with
  | '\x7d' :: cs => .ok (low, some low, cs)
  | ',' :: cs =>
    match skipBlanks cs with
    | '\x7d' :: cs => .ok (low, none, cs)
    | cs => do
      let (high, cs) ← decimal cs
      match cs with
      | '\x7d' :: cs => if low ≤ high then .ok (low, some high, cs) else .error .badCount
      | _ => .error .badCount
  | _ => .error .badCount

/-! ## Groups -/

/-- Read flags up to `)` or `:`, which is returned first. -/
def flagLetters (on : Bool) (flags : Flags) :
    List Char → Except SyntaxFault (Char × Flags × List Char)
  | ')' :: cs => .ok (')', flags, cs)
  | ':' :: cs => .ok (':', flags, cs)
  | '-' :: cs => if on then flagLetters false flags cs else .error .badGroup
  | 'i' :: cs => flagLetters on { flags with ignoreCase := on } cs
  | 'm' :: cs => flagLetters on { flags with multiLine := on } cs
  | 's' :: cs => flagLetters on { flags with dotAll := on } cs
  | 'U' :: cs => flagLetters on { flags with swapGreed := on } cs
  | _ => .error .badGroup

/-- How a group starts. -/
inductive GroupStart
  /-- A group with the flags inside it. -/
  | group (flags : Flags)
  /-- Flags for what follows. -/
  | setFlags (flags : Flags)

/-- Read the start of a group behind its parenthesis. -/
def groupStart (flags : Flags) : List Char → Except SyntaxFault (GroupStart × List Char)
  | '?' :: ')' :: _ => .error .badGroup
  | '?' :: 'P' :: '<' :: cs => named cs
  | '?' :: '<' :: cs => named cs
  | '?' :: cs => do
    let (stop, inner, cs) ← flagLetters true flags cs
    if stop = ':' then .ok (.group inner, cs) else .ok (.setFlags inner, cs)
  | cs => .ok (.group flags, cs)
where
  /-- Read the name of a group. -/
  named (cs : List Char) : Except SyntaxFault (GroupStart × List Char) :=
    let name := cs.takeWhile (· != '>')
    let isStart (c : Char) := c.isAlpha || c == '_'
    if name.head?.any isStart && name.all (fun c => c.isAlphanum || c == '_') &&
        name.length < cs.length then
      .ok (.group flags, cs.drop (name.length + 1))
    else .error .badGroup

/-! ## Expressions -/

/-- The items of a branch in a row, the last one first. Flags are no item. -/
def inRow (items : List (Option Expr)) : Expr :=
  (items.filterMap id).foldl (fun e item =>
    match e with
    | .empty => item
    | e => .seq item e) .empty

/-- The alternatives of a group, the last one first. -/
def inTurn (last : Expr) (branches : List Expr) : Expr :=
  branches.foldl (fun e branch => .alt branch e) last

/-- The expression of a literal character. -/
def literal (flags : Flags) (c : Char) : Expr :=
  .chars (if flags.ignoreCase then .upToCase c else .single c)

/-- Read alternatives up to the end or a closing parenthesis, which stays.
`branches` are the finished alternatives and `items` the items of the current
one, latest first. Every round takes a character, so `fuel` beyond the length of
the text changes nothing. -/
def alternatives : (fuel : Nat) → Flags → (branches : List Expr) →
    (items : List (Option Expr)) → List Char → Except SyntaxFault (Expr × List Char)
  | 0, _, _, _, _ => .error .unclosedGroup
  | fuel + 1, flags, branches, items, cs =>
    let item (e : Expr) (cs : List Char) := alternatives fuel flags branches (some e :: items) cs
    let again (low : Nat) (high : Option Nat) (cs : List Char) :=
      match items with
      | some e :: items =>
        let lazily := cs.head? == some '?'
        let e := e.counted low high (lazily == flags.swapGreed)
        alternatives fuel flags branches (some e :: items) (if lazily then cs.drop 1 else cs)
      | _ => .error .nothingToRepeat
    match cs with
    | [] => .ok (inTurn (inRow items) branches, [])
    | ')' :: cs => .ok (inTurn (inRow items) branches, ')' :: cs)
    | '|' :: cs => alternatives fuel flags (inRow items :: branches) [] cs
    | '(' :: cs => do
      match ← groupStart flags cs with
      | (.setFlags flags, cs) => alternatives fuel flags branches (none :: items) cs
      | (.group inner, cs) =>
        match ← alternatives fuel inner [] [] cs with
        | (e, ')' :: cs) => item e cs
        | _ => .error .unclosedGroup
    | '*' :: cs => again 0 none cs
    | '+' :: cs => again 1 none cs
    | '?' :: cs => again 0 (some 1) cs
    | '\x7b' :: cs =>
      if items.head?.any Option.isSome then do
        let (low, high, cs) ← count cs
        again low high cs
      else .error .nothingToRepeat
    | '[' :: cs => do
      let (set, cs) ← charSet flags cs
      item (.chars set) cs
    | '.' :: cs => item (.chars (if flags.dotAll then .any else .inLine)) cs
    | '^' :: cs => item (.look (if flags.multiLine then .lineStart else .textStart)) cs
    | '$' :: cs => item (.look (if flags.multiLine then .lineEnd else .textEnd)) cs
    | '\\' :: c :: cs =>
      match Escape.of? c with
      | some (.char c) => item (literal flags c) cs
      | some (.category kind negated) =>
        item (.chars ⟨[.category kind negated], false, false⟩) cs
      | some (.look condition) => item (.look condition) cs
      | none => .error .badEscape
    | '\\' :: [] => .error .badEscape
    | c :: cs => item (literal flags c) cs

/-- Read a whole expression. -/
def Expr.parse (source : String) : Except SyntaxFault Expr := do
  let cs := source.toList
  match ← alternatives (cs.length + 1) {} [] [] cs with
  | (e, []) => .ok e
  | _ => .error .unopenedGroup

end Classdesk.Pattern
