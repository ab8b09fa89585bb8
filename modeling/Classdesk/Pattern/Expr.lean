import Classdesk.Text.CaseFold
import Classdesk.Text.WordChar

/-!
# Regular expressions

The expressions that classify text, and where each can end when it starts at a
given position. `Expr.ends` lists the end positions in order of preference: the
left branch of an alternative before the right one, one more round of a greedy
loop before leaving it, leaving a lazy loop before one more round. A round that
consumes nothing leaves the loop. Every end is listed once, at its highest
preference; the first one is the match.
-/

namespace Classdesk.Pattern

/-- Classes of characters that have a letter of their own. -/
inductive Category
  | digit | white | word
  deriving DecidableEq, Repr

/-- Whether a character is of a category. -/
def Category.has : Category → Char → Bool
  | digit => Text.isDecimalDigit
  | white => Text.isWhite
  | word => Text.isWordChar

/-- A part of a set of characters. -/
inductive SetItem
  | range (low high : Char)
  | category (kind : Category) (negated : Bool)
  deriving DecidableEq, Repr

/-- Whether a character is in a part of a set. -/
def SetItem.has : SetItem → Char → Bool
  | range low high, c => low ≤ c && c ≤ high
  | category kind negated, c => kind.has c != negated

/-- A set of characters. -/
structure CharSet where
  items : List SetItem
  negated : Bool
  /-- Whether a character counts as in the set when one that folds like it is. -/
  folded : Bool
  deriving DecidableEq, Repr

namespace CharSet

/-- Whether a character is in a set. -/
def has (s : CharSet) (c : Char) : Bool :=
  let among (c : Char) := s.items.any (·.has c)
  (if s.folded then (Text.sameFold c).any among else among c) != s.negated

/-- The set of one character. -/
def single (c : Char) : CharSet := ⟨[.range c c], false, false⟩

/-- The set of the characters that fold like `c`. -/
def upToCase (c : Char) : CharSet :=
  ⟨(Text.sameFold c).map fun d => .range d d, false, false⟩

/-- All characters. -/
def any : CharSet := ⟨[], true, false⟩

/-- All characters but the line feed. -/
def inLine : CharSet := ⟨[.range '\n' '\n'], true, false⟩

end CharSet

/-- Conditions on a position. -/
inductive Look
  | textStart | textEnd | lineStart | lineEnd | wordEdge | noWordEdge
  deriving DecidableEq, Repr

/-- A regular expression. -/
inductive Expr
  /-- Matches the empty text. -/
  | empty
  | chars (set : CharSet)
  | look (condition : Look)
  | seq (first second : Expr)
  | alt (left right : Expr)
  | star (body : Expr) (greedy : Bool)
  deriving DecidableEq, Repr

/-- Whether the character at a position is a word character. -/
def isWordAt (text : Array Char) (i : Nat) : Bool := text[i]?.any Text.isWordChar

/-- Whether the character in front of a position is a word character. -/
def isWordBefore (text : Array Char) : Nat → Bool
  | 0 => false
  | i + 1 => isWordAt text i

/-- Whether the character in front of a position is a line feed. -/
def isFeedBefore (text : Array Char) : Nat → Bool
  | 0 => false
  | i + 1 => text[i]? == some '\n'

/-- Whether a condition holds at a position. -/
def Look.holds (text : Array Char) (i : Nat) : Look → Bool
  | textStart => i == 0
  | textEnd => i == text.size
  | lineStart => i == 0 || isFeedBefore text i
  | lineEnd => i == text.size || text[i]? == some '\n'
  | wordEdge => isWordBefore text i != isWordAt text i
  | noWordEdge => isWordBefore text i == isWordAt text i

/-- Put an end in front of those found, unless it is among them. -/
def addEnd (i : Nat) (found : List Nat) : List Nat :=
  if found.contains i then found else i :: found

/-- The ends of a loop from `i` on, the latest found first, added to those in
`found`. Every round that counts moves on, so `fuel` beyond the rest of the text
changes nothing. A position that was found before has nothing new to add. -/
def loopEnds (step : Nat → List Nat) (greedy : Bool) :
    (fuel i : Nat) → (found : List Nat) → List Nat
  | 0, i, found => addEnd i found
  | fuel + 1, i, found =>
    if found.contains i then found
    else
      let found := if greedy then found else i :: found
      let found := (step i).foldl (fun found j =>
        if i < j then loopEnds step greedy fuel j found else addEnd i found) found
      addEnd i found

namespace Expr

/-- Where the expression can end when it starts at a position, in order of
preference. -/
def ends (text : Array Char) : Expr → Nat → List Nat
  | empty, i => [i]
  | chars set, i => if text[i]?.any set.has then [i + 1] else []
  | look condition, i => if condition.holds text i then [i] else []
  | seq first second, i => ((ends text first i).flatMap (ends text second)).eraseDups
  | alt left right, i => (ends text left i ++ ends text right i).eraseDups
  | star body greedy, i =>
    (loopEnds (ends text body) greedy (text.size - i) i []).reverse

/-- One or nothing. -/
def optional (e : Expr) (greedy : Bool) : Expr :=
  if greedy then alt e empty else alt empty e

/-- `n` times the same in a row, then something else. -/
def times : Nat → Expr → Expr → Expr
  | 0, _, tail => tail
  | n + 1, e, tail => seq e (times n e tail)

/-- Up to `n` times the same in a row. -/
def upTo (e : Expr) (greedy : Bool) : Nat → Expr
  | 0 => empty
  | n + 1 => optional (seq e (upTo e greedy n)) greedy

/-- From `low` to `high` times the same; `none` is without bound. -/
def counted (e : Expr) (low : Nat) (high : Option Nat) (greedy : Bool) : Expr :=
  match high with
  | none => times low e (star e greedy)
  | some high => times low e (upTo e greedy (high - low))

end Expr

end Classdesk.Pattern
