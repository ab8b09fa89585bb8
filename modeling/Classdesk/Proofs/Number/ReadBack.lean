import Classdesk.Proofs.Number.Notation

/-!
# Constants can be read back

The text of a finite floating-point constant is a numeral that stands for the constant and for
no other: it has its sign, and its value rounds to the constant.

> `constant_text_reads_back`: this holds for all patterns of both formats, and the numeral is
> written without an exponent exactly if the number is zero or from `10 ^ -3` up to `10 ^ 7`.

The value of the numeral is that of the shortest decimal, which rounds to the number by
`FiniteMagnitude.shortest_attracts`. All that depends on the format is that its mantissas are
short enough for seventeen digits (`Describes.small`), and how its texts are chosen from
(`floatText_of_finite`, `doubleText_of_finite`).
-/

namespace Classdesk

namespace FiniteMagnitude

variable {v : FiniteMagnitude}

/-- The number that is printed for a magnitude. -/
def printedValue (v : FiniteMagnitude) : ℚ := if v.mantissa = 0 then 0 else v.shortest.value

/-- What is printed rounds to the number. -/
theorem attracts_printedValue (h : 2 * v.mantissa < v.below * 10 ^ 16) :
    v.Attracts v.printedValue := by
  unfold printedValue
  split
  next hm =>
    have hlow := v.low_lt_value
    have hhigh := v.value_lt_high
    rw [value_eq_zero_iff.mpr hm] at hlow hhigh
    exact attracts_of_lt hlow hhigh
  next hm => exact (shortest_attracts (Nat.pos_of_ne_zero hm) h).1

/-- What is printed has no more digits than anything else that rounds to the number. -/
theorem printedValue_fewest {c : Nat} {t : Int} (h : 2 * v.mantissa < v.below * 10 ^ 16)
    (hc : v.mantissa = 0 ∨ v.Attracts (c * 10 ^ t)) :
    ∃ digits exponent, decimalLength digits ≤ decimalLength c
      ∧ v.printedValue = (digits : ℚ) * 10 ^ (exponent : Int) := by
  unfold printedValue
  split
  next => exact ⟨0, 0, decimalLength_pos c, by simp⟩
  next hm => exact shortest_fewest (Nat.pos_of_ne_zero hm) h (hc.resolve_left hm)

/-- The text of a magnitude is a numeral in the notation for it. -/
theorem text_spells (h : 2 * v.mantissa < v.below * 10 ^ 16) (negative : Bool) :
    ∃ n : Numeral, n.text = String.ofList (signChars negative ++ v.text)
      ∧ n.negative = negative ∧ n.magnitude = v.printedValue
      ∧ (n.exponent = none ↔ PointOnly v.value)
      ∧ (n.exponent = none ∨ ∃ c, n.whole.chars = [c] ∧ c ≠ '0') := by
  rw [printedValue, text]
  by_cases hm : v.mantissa = 0
  · rw [if_pos hm, if_pos hm]
    have hpoint : PointOnly v.value := .inl (value_eq_zero_iff.mpr hm)
    refine ⟨⟨negative, .zero, .zero, none⟩, rfl, rfl, ?_, iff_of_true rfl hpoint, .inl rfl⟩
    simp [Numeral.magnitude]
  · rw [if_neg hm, if_neg hm]
    have hdigits := (shortest_attracts (Nat.pos_of_ne_zero hm) h).2
    split
    next hpoint =>
      obtain ⟨n, htext, hsign, hexponent, hvalue⟩ := Decimal.positional_spells hdigits negative
      exact ⟨n, htext, hsign, hvalue, iff_of_true hexponent hpoint, .inl hexponent⟩
    next hpoint =>
      obtain ⟨n, htext, hsign, hexponent, hleading, hvalue⟩ :=
        Decimal.scientific_spells hdigits negative
      exact ⟨n, htext, hsign, hvalue, iff_of_false hexponent hpoint, .inr hleading⟩

end FiniteMagnitude

namespace FloatFormat

variable {format : FloatFormat} {bits : Nat}

/-- A numeral is read as a pattern with its sign, to whose number its magnitude is rounded. -/
structure Reads (format : FloatFormat) (n : Numeral) (bits : Nat) : Prop where
  sign : format.isNegative bits = n.negative
  rounds : format.RoundsTo n.magnitude (format.code bits)

/-- A numeral is read as a pattern and no other, has the fewest digits for that, and is written
in the notation for its number. -/
structure Spells (format : FloatFormat) (n : Numeral) (bits : Nat) : Prop where
  reads_iff : ∀ other < 2 ^ (format.fractionBits + format.exponentBits + 1),
    format.Reads n other ↔ other = bits
  fewest : ∀ (c : Nat) (t : Int), format.RoundsTo (c * 10 ^ t) (format.code bits) →
    ∃ digits exponent,
      FiniteMagnitude.decimalLength digits ≤ FiniteMagnitude.decimalLength c
        ∧ n.magnitude = (digits : ℚ) * 10 ^ (exponent : Int)
  exponent_eq_none_iff : n.exponent = none ↔ format.absValue bits = 0
    ∨ (10 ^ (-3 : Int) ≤ format.absValue bits ∧ format.absValue bits < 10 ^ (7 : Int))
  leading : n.exponent = none ∨ ∃ c, n.whole.chars = [c] ∧ c ≠ '0'

/-- A pattern is its code and its sign. -/
theorem eq_of_code_of_isNegative {a b : Nat}
    (ha : a < 2 ^ (format.fractionBits + format.exponentBits + 1))
    (hb : b < 2 ^ (format.fractionBits + format.exponentBits + 1))
    (hcode : format.code a = format.code b) (hsign : format.isNegative a = format.isNegative b) :
    a = b := by
  rw [code_eq, code_eq] at hcode
  unfold isNegative at hsign
  rw [Nat.testBit_eq_decide_div_mod_eq, Nat.testBit_eq_decide_div_mod_eq, decide_eq_decide]
    at hsign
  have hbit : a / 2 ^ (format.fractionBits + format.exponentBits) % 2
      = b / 2 ^ (format.fractionBits + format.exponentBits) % 2 := by
    omega
  rw [← Nat.mod_eq_of_lt ha, ← Nat.mod_eq_of_lt hb, Nat.mod_pow_succ, Nat.mod_pow_succ, hcode, hbit]

/-- The text of a finite number is a numeral that spells it. -/
theorem exists_spells (hf : 0 < format.fractionBits) (hf' : format.fractionBits ≤ 52)
    (hbits : bits < 2 ^ (format.fractionBits + format.exponentBits + 1))
    (h : format.IsFinite bits) {text : String} (htext : text = String.ofList
      (signChars (format.isNegative bits) ++ (format.magnitude (format.code bits)).text)) :
    ∃ n : Numeral, (∀ other : Numeral, other.text = text ↔ other = n)
      ∧ format.Spells n bits := by
  have hdescribes := describes_magnitude hf (format.code bits)
  have hsmall := hdescribes.small hf'
  obtain ⟨n, hspells, hsign, hvalue, hexponent, hleading⟩ :=
    FiniteMagnitude.text_spells hsmall (format.isNegative bits)
  rw [hdescribes.value_eq] at hexponent
  have hrounds : format.RoundsTo n.magnitude (format.code bits) :=
    hvalue ▸ hdescribes.roundsTo h.le (FiniteMagnitude.attracts_printedValue hsmall)
  refine ⟨n, fun other => ?_, fun other hother => ?_, fun c t hc => ?_, hexponent, hleading⟩
  · rw [htext, ← hspells]
    exact ⟨Numeral.text_injective, fun heq => heq ▸ rfl⟩
  · constructor
    · intro hreads
      exact eq_of_code_of_isNegative hother hbits (hreads.rounds.unique hrounds)
        (hreads.sign.trans hsign)
    · rintro rfl
      exact ⟨hsign.symm, hrounds⟩
  · rw [hvalue]
    apply FiniteMagnitude.printedValue_fewest (t := t) hsmall
    rcases Nat.eq_zero_or_pos (format.code bits) with hzero | hpos
    · left
      rw [← FiniteMagnitude.value_eq_zero_iff, hdescribes.value_eq, hzero, codeValue_zero]
    · exact .inr (hdescribes.attracts hpos h hc)

end FloatFormat

/-- **Constants can be read back.** The text of a finite constant is that of one numeral. This
is read as the constant and as no other pattern, with its sign and by rounding to the nearest
number with ties to even, and no decimal with fewer digits is. It is digits around a point if the
number is zero or from `10 ^ -3` up to `10 ^ 7`, and else has one digit other than zero in front
of the point and an exponent. -/
theorem constant_text_reads_back :
    (∀ bits : UInt32, FloatFormat.single.IsFinite bits.toNat →
      ∃ n : Numeral, (∀ other : Numeral, other.text = floatText bits ↔ other = n)
        ∧ FloatFormat.single.Spells n bits.toNat)
    ∧ ∀ bits : UInt64, FloatFormat.double.IsFinite bits.toNat →
      ∃ n : Numeral, (∀ other : Numeral, other.text = doubleText bits ↔ other = n)
        ∧ FloatFormat.double.Spells n bits.toNat :=
  ⟨fun bits h => FloatFormat.exists_spells (by decide) (by decide) bits.toNat_lt h
      (floatText_of_finite h),
    fun bits h => FloatFormat.exists_spells (by decide) (by decide) bits.toNat_lt h
      (doubleText_of_finite h)⟩

/-- The smallest numbers of both formats, one of them negative. -/
theorem smallest_constants_read_back :
    (FloatFormat.single.IsFinite 1
      ∧ ∃ n : Numeral, (∀ other : Numeral, other.text = floatText 1 ↔ other = n)
        ∧ FloatFormat.single.Spells n 1)
    ∧ FloatFormat.double.IsFinite 0x8000000000000001
      ∧ ∃ n : Numeral, (∀ other : Numeral, other.text = doubleText 0x8000000000000001 ↔ other = n)
        ∧ FloatFormat.double.Spells n 0x8000000000000001 :=
  ⟨⟨by decide, constant_text_reads_back.1 1 (by decide)⟩,
    by decide, constant_text_reads_back.2 0x8000000000000001 (by decide)⟩

example : doubleText 0x8000000000000001 = "-5.0E-324" := by decide +kernel

end Classdesk
