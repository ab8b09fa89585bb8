/-!
# The shortest decimal of a binary floating-point number

A finite number of a binary format is `m · 2 ^ q`. The reals that round to it
form an interval around it, with its ends included exactly when `m` is even. The
shortest decimal is the one with the fewest digits inside that interval; of two
with as many digits the nearer one is taken, and of two equally near ones the
larger. All arithmetic is exact.
-/

namespace Classdesk

/-- A binary floating-point format. -/
structure FloatFormat where
  /-- Bits of the fraction. -/
  fractionBits : Nat
  /-- Bits of the exponent. -/
  exponentBits : Nat

namespace FloatFormat

/-- The 32-bit format. -/
def single : FloatFormat := ⟨23, 8⟩

/-- The 64-bit format. -/
def double : FloatFormat := ⟨52, 11⟩

end FloatFormat

/-- The magnitude of a number that has one: `mantissa · 2 ^ exponent`. -/
structure FiniteMagnitude where
  mantissa : Nat
  exponent : Int
  /-- Whether the next smaller number is only half as far away as the next larger. -/
  closeBelow : Bool

/-- What a bit pattern stands for, up to its sign. -/
inductive FloatClass
  | nan
  | infinite
  | finite (magnitude : FiniteMagnitude)

namespace FloatFormat

/-- Whether the sign bit is set. -/
def isNegative (format : FloatFormat) (bits : Nat) : Bool :=
  bits.testBit (format.fractionBits + format.exponentBits)

/-- The bits without the sign. Those of numbers are ordered as the numbers are. -/
def code (format : FloatFormat) (bits : Nat) : Nat :=
  bits % Nat.pow 2 (format.fractionBits + format.exponentBits)

/-- The class and magnitude of a bit pattern. -/
def classify (format : FloatFormat) (bits : Nat) : FloatClass :=
  let leading := Nat.pow 2 format.fractionBits
  let exponents := Nat.pow 2 format.exponentBits
  let fraction := bits % leading
  let exponent := bits / leading % exponents
  let lowest : Int := 2 - (exponents / 2 : Nat) - format.fractionBits
  if exponent = exponents - 1 then
    if fraction = 0 then .infinite else .nan
  else if exponent = 0 then .finite ⟨fraction, lowest, false⟩
  else .finite ⟨leading + fraction, lowest + (exponent - 1),
    fraction == 0 && exponent != 1⟩

end FloatFormat

/-- The decimal number `digits · 10 ^ exponent`. -/
structure Decimal where
  digits : Nat
  exponent : Int
  deriving DecidableEq, Repr

namespace FiniteMagnitude

/-- The number of decimal digits of a positive number. -/
def decimalLength (n : Nat) : Nat := (Nat.toDigits 10 n).length

/-- The numerator and denominator of `x / 4` in units of the last place, divided
by `10 ^ s`. -/
def scaled (v : FiniteMagnitude) (x : Nat) (s : Int) : Nat × Nat :=
  (x * Nat.pow 2 (v.exponent - 2).toNat * Nat.pow 10 (-s).toNat,
    Nat.pow 2 (2 - v.exponent).toNat * Nat.pow 10 s.toNat)

/-- The exponent of the leading decimal digit. -/
def leadingExponent (v : FiniteMagnitude) : Int :=
  let (num, den) := v.scaled (4 * v.mantissa) 0
  if den ≤ num then (decimalLength (num / den) : Int) - 1
  else -(decimalLength ((den + num - 1) / num - 1) : Int)

/-- Whether `c · 10 ^ s` rounds to the number. -/
def contains (v : FiniteMagnitude) (c : Nat) (s : Int) : Bool :=
  let below := if v.closeBelow then 1 else 2
  let (low, den) := v.scaled (4 * v.mantissa - below) s
  let (high, _) := v.scaled (4 * v.mantissa + 2) s
  if v.mantissa % 2 = 0 then low ≤ c * den && c * den ≤ high
  else low < c * den && c * den < high

/-- The neighbour of the number among the multiples of `10 ^ s` that rounds to
it, if there is one. -/
def onGrid? (v : FiniteMagnitude) (s : Int) : Option Nat :=
  let (num, den) := v.scaled (4 * v.mantissa) s
  let down := num / den
  let up := down + 1
  match v.contains down s, v.contains up s with
  | true, true => if 2 * (num - down * den) < den then some down else some up
  | true, false => some down
  | false, true => some up
  | false, false => none

/-- Search grids with `digits`, `digits + 1`, … places. -/
def search (v : FiniteMagnitude) (lead : Int) : (rounds digits : Nat) → Decimal
  | 0, digits =>
    let s := lead - digits + 1
    let (num, den) := v.scaled (4 * v.mantissa) s
    ⟨num / den, s⟩
  | rounds + 1, digits =>
    let s := lead - digits + 1
    match v.onGrid? s with
    | some c => ⟨c, s⟩
    | none => search v lead rounds (digits + 1)

/-- The shortest decimal that rounds to a number other than zero. Seventeen
digits are enough for both formats. -/
def shortest (v : FiniteMagnitude) : Decimal :=
  search v v.leadingExponent 17 1

end FiniteMagnitude

end Classdesk
