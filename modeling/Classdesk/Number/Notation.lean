import Classdesk.Number.Shortest

/-!
# Floating-point constants in source notation

A number has two texts with its shortest digits: one with a point only, as long as that
does not take too many zeros, and one with an exponent. The text of a constant is chosen
from them by its value as a 64-bit number. Zero and magnitudes from `10 ^ -3` up to but not
including `10 ^ 7` are written with a point (`1234567.5`), all others with an exponent
(`1.5E-5`), and a point and a zero are put in there if there is no point.
-/

namespace Classdesk

namespace Decimal

/-- The significant digits, without zeros at the end. -/
def significant (d : Decimal) : List Char :=
  ((Nat.toDigits 10 d.digits).reverse.dropWhile (· == '0')).reverse

/-- How many digits stand in front of the point. -/
def pointPosition (d : Decimal) : Int :=
  (Nat.toDigits 10 d.digits).length + d.exponent

/-- `n` zeros. -/
def zeros (n : Nat) : List Char := List.replicate n '0'

/-- The decimal written with a point only. -/
def positional (d : Decimal) : List Char :=
  let digits := d.significant
  let point := d.pointPosition
  if point ≤ 0 then '0' :: '.' :: zeros (-point).toNat ++ digits
  else if digits.length ≤ point.toNat then
    digits ++ zeros (point.toNat - digits.length) ++ ['.', '0']
  else digits.take point.toNat ++ '.' :: digits.drop point.toNat

/-- The decimal written with an exponent behind a mark. The point behind the first digit is
left out if that is the only one. -/
def exponential (mark : Char) (d : Decimal) : List Char :=
  let digits := d.significant
  let fraction := if digits.length ≤ 1 then [] else '.' :: digits.drop 1
  digits.take 1 ++ fraction ++ mark :: (toString (d.pointPosition - 1)).toList

end Decimal

namespace FloatFormat

/-! ## Shortest texts -/

/-- The text of a bit pattern by a text for its magnitude. -/
def textBy (format : FloatFormat) (bits : Nat) (magnitudeText : FiniteMagnitude → List Char) :
    List Char :=
  let signed (chars : List Char) := if format.isNegative bits then '-' :: chars else chars
  match format.classify bits with
  | .nan => "NaN".toList
  | .infinite => signed "inf".toList
  | .finite v => signed (magnitudeText v)

/-- The text with a point only. Below the code `small` and from the code `large` on there is
an exponent nevertheless. -/
def plainText (format : FloatFormat) (small large bits : Nat) : List Char :=
  format.textBy bits fun v =>
    if v.mantissa = 0 then ['0', '.', '0']
    else if format.code bits < small || large ≤ format.code bits then v.shortest.exponential 'e'
    else v.shortest.positional

/-- The text with an exponent. -/
def exponentText (format : FloatFormat) (bits : Nat) : List Char :=
  format.textBy bits fun v =>
    if v.mantissa = 0 then ['0', 'E', '0'] else v.shortest.exponential 'E'

/-! ## Widening -/

/-- The 64-bit code with the value of a 32-bit code. -/
def widenCode (code : Nat) : Nat :=
  let exponent := code / Nat.pow 2 23
  let fraction := code % Nat.pow 2 23
  if exponent = 255 then 2047 * Nat.pow 2 52 + fraction * Nat.pow 2 29
  else if exponent ≠ 0 then (exponent + 896) * Nat.pow 2 52 + fraction * Nat.pow 2 29
  else if fraction = 0 then 0
  else
    -- Too small for a leading bit in 32 bits, but not in 64: the first bit set is it.
    let places := Nat.log2 fraction
    (places + 874) * Nat.pow 2 52 + (fraction * Nat.pow 2 (52 - places) - Nat.pow 2 52)

/-- A 32-bit number in 64 bits. -/
def widen (bits : UInt32) : UInt64 :=
  UInt64.ofNat ((if single.isNegative bits.toNat then Nat.pow 2 63 else 0)
    + widenCode (single.code bits.toNat))

end FloatFormat

/-! ## Source notation -/

/-- The 64-bit pattern of infinity. -/
def infinityBits : UInt64 := 0x7FF0000000000000

/-- The 64-bit pattern of `10 ^ -3`, rounded. -/
def thousandthBits : UInt64 := 0x3F50624DD2F1A9FC

/-- The 64-bit pattern of `10 ^ 7`. -/
def tenMillionBits : UInt64 := 0x416312D000000000

/-- Put `.0` in front of the exponent if there is no point. -/
def withPoint (scientific : List Char) : List Char :=
  let mantissa := scientific.takeWhile (· != 'E')
  match scientific.dropWhile (· != 'E') with
  | _ :: exponent =>
    if mantissa.contains '.' then scientific else mantissa ++ ['.', '0', 'E'] ++ exponent
  | [] => scientific

/-- The text of a constant with some value, chosen from its two shortest texts. -/
def constantText (value : UInt64) (plain scientific : List Char) : List Char :=
  let magnitude := value &&& 0x7FFFFFFFFFFFFFFF
  if infinityBits < magnitude then "NaN".toList
  else if magnitude = infinityBits then
    if value = magnitude then "Infinity".toList else "-Infinity".toList
  else if magnitude = 0 || (thousandthBits ≤ magnitude && magnitude < tenMillionBits) then plain
  else withPoint scientific

/-- The text of a 32-bit constant. In 32 bits, `10 ^ -4` and `10 ^ 16` have the codes
given. -/
def floatText (bits : UInt32) : String :=
  let format := FloatFormat.single
  String.ofList (constantText (FloatFormat.widen bits)
    (format.plainText 0x38D1B717 0x5A0E1BCA bits.toNat) (format.exponentText bits.toNat))

/-- The text of a 64-bit constant. In 64 bits, `10 ^ -4` and `10 ^ 16` have the codes
given. -/
def doubleText (bits : UInt64) : String :=
  let format := FloatFormat.double
  String.ofList (constantText bits
    (format.plainText 0x3F1A36E2EB1C432D 0x4341C37937E08000 bits.toNat)
    (format.exponentText bits.toNat))

end Classdesk
