/-!
# UTF-16 code units

A character outside the basic plane is a pair of surrogates, any other character
is one unit. Reading units joins high-low pairs; a surrogate that stands alone has
no character and reads as U+FFFD.
-/

namespace Classdesk.Text

/-- Whether a unit opens a surrogate pair. -/
def isHighSurrogate (u : Nat) : Bool := 0xD800 ≤ u && u < 0xDC00

/-- Whether a unit closes a surrogate pair. -/
def isLowSurrogate (u : Nat) : Bool := 0xDC00 ≤ u && u < 0xE000

/-- The character that stands for what cannot be decoded. -/
def replacement : Char := Char.ofNat 0xFFFD

/-- The character of a surrogate pair. -/
def pairChar (high low : Nat) : Char :=
  Char.ofNat (0x10000 + (high - 0xD800) * 0x400 + (low - 0xDC00))

/-- The text of some UTF-16 units, a surrogate without partner as U+FFFD. -/
def ofUtf16 : List Nat → List Char
  | [] => []
  | [u] => [if isHighSurrogate u || isLowSurrogate u then replacement else Char.ofNat u]
  | u :: v :: rest =>
    if isHighSurrogate u then
      if isLowSurrogate v then pairChar u v :: ofUtf16 rest
      else replacement :: ofUtf16 (v :: rest)
    else if isLowSurrogate u then replacement :: ofUtf16 (v :: rest)
    else Char.ofNat u :: ofUtf16 (v :: rest)

end Classdesk.Text
