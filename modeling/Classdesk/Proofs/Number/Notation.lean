import Classdesk.Proofs.Number.Numerals

/-!
# Which notation is chosen

The text of a constant is chosen from two shortest texts by comparing its value, as a 64-bit
number, with the 64-bit numbers for `10 ^ -3` and `10 ^ 7`, and the text with an exponent is
mended if it has no point. What comes out can be said without any of this:

> `FiniteMagnitude.text`: zero and numbers from `10 ^ -3` up to `10 ^ 7`, compared exactly, are
> written with a point only, all others with one digit in front of the point and an exponent.
> `floatText_of_finite`, `doubleText_of_finite`: this is the text of a constant behind its sign.

Three things have to be seen. Widening keeps the value (`codeValue_widenCode`). The number for
`10 ^ -3` is above it, but the next smaller one is not (`thousandth_le_iff`), so nothing is lost
by comparing with it. And the mark of the exponent is the first of its kind in a text, so mending
puts the point where it belongs (`withPoint_exponential`).
-/

namespace Classdesk

/-- Numbers that are written with a point only. -/
def PointOnly (x : ℚ) : Prop := x = 0 ∨ (10 ^ (-3 : Int) ≤ x ∧ x < 10 ^ (7 : Int))

instance (x : ℚ) : Decidable (PointOnly x) := inferInstanceAs (Decidable (_ ∨ _))

namespace FiniteMagnitude

variable {v : FiniteMagnitude}

/-- The text of a magnitude, by its exact value. -/
def text (v : FiniteMagnitude) : List Char :=
  if v.mantissa = 0 then ['0', '.', '0']
  else if PointOnly v.value then v.shortest.positional
  else v.shortest.scientific

theorem value_eq_zero_iff : v.value = 0 ↔ v.mantissa = 0 := by
  have hpow : (2 : ℚ) ^ v.exponent ≠ 0 := by positivity
  rw [value, mul_eq_zero, or_iff_left hpow, Nat.cast_eq_zero]

end FiniteMagnitude

/-! ## Mending the exponent -/

/-- Characters in front of the mark of an exponent. -/
theorem takeWhile_mark {front : List Char} (h : ∀ c ∈ front, c ≠ 'E') (rest : List Char) :
    (front ++ 'E' :: rest).takeWhile (· != 'E') = front
      ∧ (front ++ 'E' :: rest).dropWhile (· != 'E') = 'E' :: rest := by
  have hfront : ∀ c ∈ front, (c != 'E') = true := fun c hc => bne_iff_ne.mpr (h c hc)
  refine ⟨?_, ?_⟩
  · rw [List.takeWhile_append_of_pos hfront]
    simp
  · rw [List.dropWhile_append_of_pos hfront]
    simp

/-- A text with a point in front of the exponent is left alone, and others get one. -/
theorem withPoint_append {front : List Char} (h : ∀ c ∈ front, c ≠ 'E') (rest : List Char) :
    withPoint (front ++ 'E' :: rest)
      = (if '.' ∈ front then front else front ++ ['.', '0']) ++ 'E' :: rest := by
  obtain ⟨htake, hdrop⟩ := takeWhile_mark h rest
  unfold withPoint
  rw [htake, hdrop]
  by_cases hpoint : '.' ∈ front
  · simp [hpoint]
  · simp [hpoint]

private theorem not_mark_of_isDigit {x : Char} (h : x.isDigit = true) : x ≠ 'E' ∧ x ≠ '.' := by
  refine ⟨?_, ?_⟩ <;> rintro rfl <;> exact absurd h (by decide)

private theorem not_mark_of_mem_signChars {negative : Bool} {x : Char}
    (h : x ∈ signChars negative) : x ≠ 'E' ∧ x ≠ '.' := by
  cases negative with
  | false => exact absurd h List.not_mem_nil
  | true =>
    rw [List.mem_singleton.mp h]
    decide

/-- **Mending gives source notation**: a point and a zero stand in for digits that are not
there. -/
theorem withPoint_exponential {d : Decimal} (h : 0 < d.digits) (negative : Bool) :
    withPoint (signChars negative ++ d.exponential 'E') = signChars negative ++ d.scientific := by
  obtain ⟨c, cs, hsig, -⟩ := Decimal.exists_leading h
  have hmark : ∀ x ∈ c :: cs, x ≠ 'E' ∧ x ≠ '.' :=
    hsig ▸ fun _ hx => not_mark_of_isDigit (Decimal.isDigit_of_mem_significant hx)
  cases cs with
  | nil =>
    have hfront : ∀ x ∈ signChars negative ++ [c], x ≠ 'E' ∧ x ≠ '.' := by
      intro x hx
      rcases List.mem_append.mp hx with hx | hx
      · exact not_mark_of_mem_signChars hx
      · exact hmark x hx
    have htext : signChars negative ++ d.exponential 'E'
        = (signChars negative ++ [c]) ++ 'E' :: (toString (d.pointPosition - 1)).toList := by
      rw [Decimal.exponential, hsig]
      simp
    rw [htext, withPoint_append fun x hx => (hfront x hx).1,
      if_neg fun hx => (hfront _ hx).2 rfl, Decimal.scientific, hsig]
    simp
  | cons x xs =>
    have hfront : ∀ y ∈ signChars negative ++ c :: '.' :: x :: xs, y ≠ 'E' := by
      intro y hy
      rcases List.mem_append.mp hy with hy | hy
      · exact (not_mark_of_mem_signChars hy).1
      · rcases List.mem_cons.mp hy with rfl | hy
        · exact (hmark y List.mem_cons_self).1
        · rcases List.mem_cons.mp hy with rfl | hy
          · decide
          · exact (hmark y (List.mem_cons_of_mem _ hy)).1
    have htext : signChars negative ++ d.exponential 'E'
        = (signChars negative ++ c :: '.' :: x :: xs)
          ++ 'E' :: (toString (d.pointPosition - 1)).toList := by
      rw [Decimal.exponential, hsig]
      simp
    rw [htext, withPoint_append hfront, if_pos (by simp), Decimal.scientific, hsig]
    simp

namespace FloatFormat

variable {format : FloatFormat} {code : Nat}

/-! ## Widening -/

/-- What exponent and fraction stand for. -/
theorem units_split {exponent fraction : Nat} (h : fraction < 2 ^ format.fractionBits) :
    format.units (exponent * 2 ^ format.fractionBits + fraction)
      = if exponent = 0 then fraction
        else (2 ^ format.fractionBits + fraction) * 2 ^ (exponent - 1) := by
  have hdiv : (exponent * 2 ^ format.fractionBits + fraction) / 2 ^ format.fractionBits
      = exponent := by
    rw [Nat.mul_comm, Nat.mul_add_div (Nat.two_pow_pos _), Nat.div_eq_of_lt h, Nat.add_zero]
  have hmod : (exponent * 2 ^ format.fractionBits + fraction) % 2 ^ format.fractionBits
      = fraction := by
    rw [Nat.mul_comm, Nat.mul_add_mod, Nat.mod_eq_of_lt h]
  unfold units
  rw [hdiv, hmod]

/-- A number with a leading bit keeps it. -/
theorem units_widen_normal {exponent fraction : Nat} (he : exponent ≠ 0)
    (hfraction : fraction < 2 ^ 23) :
    double.units ((exponent + 896) * 2 ^ 52 + fraction * 2 ^ 29)
      = (2 ^ 23 + fraction) * 2 ^ (exponent - 1) * 2 ^ 925 := by
  have hunits := @units_split double (exponent + 896) (fraction * 2 ^ 29)
    (show _ < 2 ^ 52 by omega)
  rw [if_neg (by omega)] at hunits
  have hmantissa : 2 ^ 52 + fraction * 2 ^ 29 = (2 ^ 23 + fraction) * 2 ^ 29 := by omega
  have hpow : 2 ^ 29 * 2 ^ (exponent + 896 - 1) = 2 ^ (exponent - 1) * 2 ^ 925 := by
    rw [← Nat.pow_add, ← Nat.pow_add, show 29 + (exponent + 896 - 1) = exponent - 1 + 925 by omega]
  refine hunits.trans ?_
  rw [show 2 ^ double.fractionBits = 2 ^ 52 from rfl, hmantissa, Nat.mul_assoc, hpow, Nat.mul_assoc]

/-- Shifted by what its first bit needs, a fraction has a leading bit and no more. -/
theorem leading_bit {fraction : Nat} (h : fraction ≠ 0) (hfraction : fraction < 2 ^ 23) :
    Nat.log2 fraction < 23 ∧ 2 ^ 52 ≤ fraction * 2 ^ (52 - Nat.log2 fraction)
      ∧ fraction * 2 ^ (52 - Nat.log2 fraction) < 2 ^ 53 := by
  have hlow : 2 ^ Nat.log2 fraction ≤ fraction := Nat.log2_self_le h
  have hhigh : fraction < 2 ^ (Nat.log2 fraction + 1) := Nat.lt_log2_self
  have hplaces : Nat.log2 fraction < 23 := (Nat.log2_lt h).mpr hfraction
  generalize Nat.log2 fraction = places at hlow hhigh hplaces
  refine ⟨hplaces, ?_, ?_⟩
  · have hle := Nat.mul_le_mul_right (2 ^ (52 - places)) hlow
    rwa [← Nat.pow_add, show places + (52 - places) = 52 by omega] at hle
  · have hlt := Nat.mul_lt_mul_of_pos_right hhigh (Nat.two_pow_pos (52 - places))
    rwa [← Nat.pow_add, show places + 1 + (52 - places) = 53 by omega] at hlt

/-- A number without a leading bit gets one. -/
theorem units_widen_subnormal {fraction : Nat} (h : fraction ≠ 0) (hfraction : fraction < 2 ^ 23) :
    double.units ((Nat.log2 fraction + 874) * 2 ^ 52
        + (fraction * 2 ^ (52 - Nat.log2 fraction) - 2 ^ 52))
      = fraction * 2 ^ 925 := by
  obtain ⟨hplaces, hleading, hbound⟩ := leading_bit h hfraction
  generalize Nat.log2 fraction = places at hplaces hleading hbound
  have hunits := @units_split double (places + 874) (fraction * 2 ^ (52 - places) - 2 ^ 52)
    (show _ < 2 ^ 52 by omega)
  rw [if_neg (by omega)] at hunits
  have hexponent : 52 - places + (places + 874 - 1) = 925 := by omega
  have hpow : 2 ^ (52 - places) * 2 ^ (places + 874 - 1) = 2 ^ 925 :=
    hexponent ▸ (Nat.pow_add ..).symm
  refine hunits.trans ?_
  rw [show 2 ^ double.fractionBits = 2 ^ 52 from rfl, Nat.add_sub_cancel' hleading,
    Nat.mul_assoc, hpow]

/-- How a code is widened, by its exponent and its fraction. -/
private theorem widenCode_eq (code : Nat) :
    widenCode code = if code / 2 ^ 23 = 255 then 2047 * 2 ^ 52 + code % 2 ^ 23 * 2 ^ 29
      else if code / 2 ^ 23 ≠ 0 then (code / 2 ^ 23 + 896) * 2 ^ 52 + code % 2 ^ 23 * 2 ^ 29
      else if code % 2 ^ 23 = 0 then 0
      else (Nat.log2 (code % 2 ^ 23) + 874) * 2 ^ 52
        + (code % 2 ^ 23 * 2 ^ (52 - Nat.log2 (code % 2 ^ 23)) - 2 ^ 52) := rfl

/-- A widened code is far below infinity, and stands for as many of the smaller units as it
should. -/
theorem widenCode_spec (h : code < single.infinityCode) :
    widenCode code < 1151 * 2 ^ 52
      ∧ double.units (widenCode code) = single.units code * 2 ^ 925 := by
  have hexponent : code / 2 ^ 23 < 255 := (Nat.div_lt_iff_lt_mul (by decide)).mpr h
  have hfraction : code % 2 ^ 23 < 2 ^ 23 := Nat.mod_lt _ (by decide)
  have hunits : single.units code = if code / 2 ^ 23 = 0 then code % 2 ^ 23
      else (2 ^ 23 + code % 2 ^ 23) * 2 ^ (code / 2 ^ 23 - 1) := rfl
  rw [hunits, widenCode_eq]
  generalize code / 2 ^ 23 = exponent at hexponent
  generalize code % 2 ^ 23 = fraction at hfraction
  rw [if_neg (by omega)]
  by_cases hnormal : exponent = 0
  · rw [if_pos hnormal, if_neg (not_not.mpr hnormal)]
    by_cases hzero : fraction = 0
    · rw [if_pos hzero, hzero, Nat.zero_mul]
      exact ⟨by decide, rfl⟩
    · rw [if_neg hzero]
      obtain ⟨hplaces, -, hbound⟩ := leading_bit hzero hfraction
      exact ⟨by omega, units_widen_subnormal hzero hfraction⟩
  · rw [if_neg hnormal, if_pos hnormal]
    exact ⟨by omega, units_widen_normal hnormal hfraction⟩

/-- **Widening keeps the value.** -/
theorem codeValue_widenCode (h : code < single.infinityCode) :
    double.codeValue (widenCode code) = single.codeValue code := by
  have hlowest : single.lowest = 925 + double.lowest := by decide
  have hsplit : (2 : ℚ) ^ single.lowest = 2 ^ 925 * 2 ^ double.lowest := by
    rw [hlowest, zpow_add₀ two_ne_zero]
    rfl
  rw [codeValue, (widenCode_spec h).2, codeValue, hsplit, Nat.cast_mul, mul_assoc]
  norm_cast

/-- A widened pattern has the widened code. -/
theorem code_widen {bits : UInt32} (h : single.code bits.toNat < single.infinityCode) :
    double.code (widen bits).toNat = widenCode (single.code bits.toNat) := by
  have hsmall := (widenCode_spec h).1
  rw [widen, UInt64.toNat_ofNat']
  show ((if single.isNegative bits.toNat then 2 ^ 63 else 0) + _) % 2 ^ 64 % 2 ^ 63 = _
  split <;> omega

/-! ## Comparing with a rounded limit -/

/-- A pattern of a number. -/
def IsFinite (format : FloatFormat) (bits : Nat) : Prop := format.code bits < format.infinityCode

instance (format : FloatFormat) (bits : Nat) : Decidable (format.IsFinite bits) :=
  inferInstanceAs (Decidable (_ < _))

/-- The number of a pattern, without its sign. -/
def absValue (format : FloatFormat) (bits : Nat) : ℚ := format.codeValue (format.code bits)

/-- There is nothing between two numbers that follow each other, so a limit there may be rounded
up. -/
theorem le_codeValue_iff {x : ℚ} {limit : Nat} (hbelow : format.codeValue limit < x)
    (hle : x ≤ format.codeValue (limit + 1)) : x ≤ format.codeValue code ↔ limit + 1 ≤ code := by
  constructor
  · intro h
    exact codeValue_strictMono.lt_iff_lt.mp (hbelow.trans_le h)
  · intro h
    exact hle.trans (codeValue_strictMono.monotone h)

/-- The value of a 64-bit code from its mantissa and exponent. -/
theorem codeValue_of_magnitude {mantissa : Nat} {exponent : Int} {closeBelow : Bool}
    (hf : 0 < format.fractionBits)
    (h : format.magnitude code = ⟨mantissa, exponent, closeBelow⟩) :
    format.codeValue code = mantissa * 2 ^ exponent := by
  rw [← (describes_magnitude hf code).value_eq, h]
  rfl

/-- The 64-bit number for `10 ^ -3` is the first that is not below it. -/
theorem thousandth_le_iff :
    10 ^ (-3 : Int) ≤ double.codeValue code ↔ thousandthBits.toNat ≤ code := by
  have hbelow : double.codeValue (thousandthBits.toNat - 1) = 0x10624DD2F1A9FB * 2 ^ (-62 : Int) :=
    codeValue_of_magnitude (by decide) rfl
  have hlimit : double.codeValue thousandthBits.toNat = 0x10624DD2F1A9FC * 2 ^ (-62 : Int) :=
    codeValue_of_magnitude (by decide) rfl
  have hlow : double.codeValue (thousandthBits.toNat - 1) < 10 ^ (-3 : Int) := by
    rw [hbelow]
    norm_num
  have hhigh : 10 ^ (-3 : Int) ≤ double.codeValue thousandthBits.toNat := by
    rw [hlimit]
    norm_num
  exact le_codeValue_iff hlow hhigh

/-- `10 ^ 7` is a 64-bit number. -/
theorem tenMillion_le_iff :
    10 ^ (7 : Int) ≤ double.codeValue code ↔ tenMillionBits.toNat ≤ code := by
  have hlimit : double.codeValue tenMillionBits.toNat = 0x1312D000000000 * 2 ^ (-29 : Int) :=
    codeValue_of_magnitude (by decide) rfl
  rw [← codeValue_strictMono.le_iff_le (f := double.codeValue), hlimit]
  norm_num

/-! ## The chosen text -/

variable {bits : Nat}

/-- Mantissas of both formats are short enough for seventeen digits. -/
theorem Describes.small {v : FiniteMagnitude} {code : Nat} (h : Describes format code v)
    (hf : format.fractionBits ≤ 52) : 2 * v.mantissa < v.below * 10 ^ 16 := by
  have hpow : 2 ^ format.fractionBits ≤ 2 ^ 52 := Nat.pow_le_pow_right (by decide) hf
  unfold FiniteMagnitude.below
  split
  next hclose =>
    rw [h.mantissa_of_closeBelow hclose]
    omega
  next =>
    have hlt := h.mantissa_lt
    rw [Nat.pow_succ] at hlt
    omega

private theorem textBy_of_finite (h : format.IsFinite bits)
    (magnitudeText : FiniteMagnitude → List Char) :
    format.textBy bits magnitudeText
      = signChars (format.isNegative bits)
        ++ magnitudeText (format.magnitude (format.code bits)) := by
  rw [textBy, classify_finite h]
  cases format.isNegative bits with
  | false => rfl
  | true => rfl

/-- The magnitude of a pattern has its value. -/
theorem value_magnitude (hf : 0 < format.fractionBits) (bits : Nat) :
    (format.magnitude (format.code bits)).value = format.absValue bits :=
  (describes_magnitude hf (format.code bits)).value_eq

/-- Only the two zeros have no digits. -/
private theorem mantissa_eq_zero_iff (hf : 0 < format.fractionBits) :
    (format.magnitude (format.code bits)).mantissa = 0 ↔ format.absValue bits = 0 := by
  rw [← value_magnitude hf, FiniteMagnitude.value_eq_zero_iff]

/-- Where source notation has no exponent, there is none in the text with a point either. -/
theorem plainText_of_finite {small large : Nat} (hf : 0 < format.fractionBits)
    (h : format.IsFinite bits) (hsmall : format.codeValue small ≤ 10 ^ (-3 : Int))
    (hlarge : 10 ^ (7 : Int) ≤ format.codeValue large) (hpoint : PointOnly (format.absValue bits)) :
    format.plainText small large bits
      = signChars (format.isNegative bits) ++ (format.magnitude (format.code bits)).text := by
  rw [plainText, textBy_of_finite h, FiniteMagnitude.text, value_magnitude hf, if_pos hpoint]
  by_cases hmantissa : (format.magnitude (format.code bits)).mantissa = 0
  · rw [if_pos hmantissa, if_pos hmantissa]
  · obtain ⟨hlow, hhigh⟩ := hpoint.resolve_left (mt (mantissa_eq_zero_iff hf).mpr hmantissa)
    have hsmall : small ≤ format.code bits :=
      codeValue_strictMono.le_iff_le.mp (hsmall.trans hlow)
    have hlarge : format.code bits < large :=
      codeValue_strictMono.lt_iff_lt.mp (hhigh.trans_le hlarge)
    have hplain : ¬(format.code bits < small || large ≤ format.code bits) = true := by
      simp only [Bool.or_eq_true, decide_eq_true_eq]
      omega
    rw [if_neg hmantissa, if_neg hmantissa, if_neg hplain]

/-- Elsewhere, all the text with an exponent can lack is its point. -/
theorem withPoint_exponentText (hf : 0 < format.fractionBits) (hf' : format.fractionBits ≤ 52)
    (h : format.IsFinite bits) (hpoint : ¬PointOnly (format.absValue bits)) :
    withPoint (format.exponentText bits)
      = signChars (format.isNegative bits) ++ (format.magnitude (format.code bits)).text := by
  have hmantissa : (format.magnitude (format.code bits)).mantissa ≠ 0 := fun hzero =>
    hpoint (.inl ((mantissa_eq_zero_iff hf).mp hzero))
  have hdigits := (FiniteMagnitude.shortest_attracts (Nat.pos_of_ne_zero hmantissa)
    ((describes_magnitude hf _).small hf')).2
  rw [exponentText, textBy_of_finite h, if_neg hmantissa, withPoint_exponential hdigits,
    FiniteMagnitude.text, if_neg hmantissa, value_magnitude hf, if_neg hpoint]

end FloatFormat

open FloatFormat

/-- Without its sign, a 64-bit pattern is its code. -/
theorem toNat_and_magnitude (value : UInt64) :
    (value &&& 0x7FFFFFFFFFFFFFFF).toNat = double.code value.toNat := by
  rw [UInt64.toNat_and]
  exact Nat.and_two_pow_sub_one_eq_mod _ 63

/-- The text of a number is chosen by its exact value. -/
theorem constantText_of_finite {value : UInt64} (h : double.IsFinite value.toNat)
    (plain scientific : List Char) :
    constantText value plain scientific
      = if PointOnly (double.absValue value.toNat) then plain else withPoint scientific := by
  have hmagnitude := toNat_and_magnitude value
  unfold constantText
  generalize value &&& 0x7FFFFFFFFFFFFFFF = magnitude at hmagnitude
  have hfinite : magnitude < infinityBits := UInt64.lt_iff_toNat_lt.mpr (hmagnitude ▸ h)
  have hzero : magnitude = 0 ↔ double.absValue value.toNat = 0 := by
    rw [absValue, ← @codeValue_zero double, codeValue_strictMono.injective.eq_iff,
      ← hmagnitude, ← UInt64.toNat_inj]
    rfl
  have hlow : thousandthBits ≤ magnitude ↔ 10 ^ (-3 : Int) ≤ double.absValue value.toNat := by
    rw [absValue, thousandth_le_iff, ← hmagnitude, UInt64.le_iff_toNat_le]
  have hhigh : magnitude < tenMillionBits ↔ double.absValue value.toNat < 10 ^ (7 : Int) := by
    rw [← not_le, absValue, tenMillion_le_iff, ← hmagnitude, not_le, UInt64.lt_iff_toNat_lt]
  dsimp only
  rw [if_neg (UInt64.lt_asymm hfinite), if_neg (UInt64.ne_of_lt hfinite)]
  refine if_congr ?_ rfl rfl
  simp only [Bool.or_eq_true, Bool.and_eq_true, decide_eq_true_eq, hzero, hlow, hhigh, PointOnly]

/-- The text of a number in source notation, where its value in 64 bits decides. -/
theorem constantText_eq_text {format : FloatFormat} {bits small large : Nat} {value : UInt64}
    (hf : 0 < format.fractionBits) (hf' : format.fractionBits ≤ 52) (h : format.IsFinite bits)
    (hvalue : double.IsFinite value.toNat)
    (habs : double.absValue value.toNat = format.absValue bits)
    (hsmall : format.codeValue small ≤ 10 ^ (-3 : Int))
    (hlarge : 10 ^ (7 : Int) ≤ format.codeValue large) :
    constantText value (format.plainText small large bits) (format.exponentText bits)
      = signChars (format.isNegative bits) ++ (format.magnitude (format.code bits)).text := by
  rw [constantText_of_finite hvalue, habs]
  split
  next hin => exact plainText_of_finite hf h hsmall hlarge hin
  next hout => exact withPoint_exponentText hf hf' h hout

/-- **The text of a 32-bit number**, behind its sign. -/
theorem floatText_of_finite {bits : UInt32} (h : single.IsFinite bits.toNat) :
    floatText bits = String.ofList (signChars (single.isNegative bits.toNat)
      ++ (single.magnitude (single.code bits.toNat)).text) := by
  have hcode := code_widen h
  have hsmall : single.codeValue 0x38D1B717 = 0xD1B717 * 2 ^ (-37 : Int) :=
    codeValue_of_magnitude (by decide) rfl
  have hlarge : single.codeValue 0x5A0E1BCA = 0x8E1BCA * 2 ^ (30 : Int) :=
    codeValue_of_magnitude (by decide) rfl
  refine congrArg String.ofList (constantText_eq_text (by decide) (by decide) h ?_ ?_ ?_ ?_)
  · rw [IsFinite, hcode]
    exact (widenCode_spec h).1.trans (by decide)
  · rw [absValue, hcode]
    exact codeValue_widenCode h
  · rw [hsmall]
    norm_num
  · rw [hlarge]
    norm_num

/-- **The text of a 64-bit number**, behind its sign. -/
theorem doubleText_of_finite {bits : UInt64} (h : double.IsFinite bits.toNat) :
    doubleText bits = String.ofList (signChars (double.isNegative bits.toNat)
      ++ (double.magnitude (double.code bits.toNat)).text) := by
  have hsmall : double.codeValue 0x3F1A36E2EB1C432D = 0x1A36E2EB1C432D * 2 ^ (-66 : Int) :=
    codeValue_of_magnitude (by decide) rfl
  have hlarge : double.codeValue 0x4341C37937E08000 = 0x11C37937E08000 * 2 ^ (1 : Int) :=
    codeValue_of_magnitude (by decide) rfl
  refine congrArg String.ofList (constantText_eq_text (by decide) (by decide) h h rfl ?_ ?_)
  · rw [hsmall]
    norm_num
  · rw [hlarge]
    norm_num

end Classdesk
