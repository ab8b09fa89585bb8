import Classdesk.Number.Shortest
import Mathlib.Algebra.Order.Field.Power
import Mathlib.Order.Monotone.Basic
import Mathlib.Tactic.Linarith
import Mathlib.Tactic.Ring

/-!
# Rounding to a binary format

The bits of a number without its sign are its *code*. Codes are ordered as the numbers they
stand for, and the code of infinity stands for the number that would come next. A rational
number is rounded to the nearest of these, and to an even code if two are equally near
(`RoundsTo`), which at the upper end is the usual rule for overflow.

> `RoundsTo.unique`: a number rounds to one code at most.
> `roundsTo_of_between`: what lies between the midpoints to both neighbours rounds to a code,
> the midpoints themselves only if the code is even.

What is printed goes by mantissa and exponent (`classify_finite`). These say where the midpoints
are (`describes_magnitude`), so that what rounds to a code is what they attract
(`Describes.roundsTo`, `Describes.attracts`).
-/

namespace Classdesk

namespace FloatFormat

variable (format : FloatFormat)

/-! ## Codes -/

/-- The code of infinity; those below it are finite and those above are no numbers. -/
def infinityCode : Nat := (2 ^ format.exponentBits - 1) * 2 ^ format.fractionBits

/-- The exponent of the smallest number. -/
def lowest : Int := 2 - (2 ^ format.exponentBits / 2 : Nat) - format.fractionBits

/-- What a code stands for, in units of the smallest number. -/
def units (code : Nat) : Nat :=
  let exponent := code / 2 ^ format.fractionBits
  let fraction := code % 2 ^ format.fractionBits
  if exponent = 0 then fraction else (2 ^ format.fractionBits + fraction) * 2 ^ (exponent - 1)

/-- The number a code stands for. -/
def codeValue (code : Nat) : ℚ := format.units code * 2 ^ format.lowest

/-- The distance to the next number, in units of the smallest number. -/
def gap (code : Nat) : Nat := 2 ^ (code / 2 ^ format.fractionBits - 1)

variable {format} {code : Nat}

private theorem units_succ (code : Nat) :
    format.units (code + 1) = format.units code + format.gap code := by
  have hpos : 0 < 2 ^ format.fractionBits := Nat.two_pow_pos _
  unfold units gap
  generalize 2 ^ format.fractionBits = leading at hpos
  have hsplit := Nat.div_add_mod code leading
  have hlt := Nat.mod_lt code hpos
  generalize code / leading = exponent at hsplit
  generalize code % leading = fraction at hsplit hlt
  subst hsplit
  rcases Nat.lt_or_ge (fraction + 1) leading with hin | hout
  · -- The exponent stays.
    have hdiv : (leading * exponent + fraction + 1) / leading = exponent := by
      rw [Nat.add_assoc, Nat.mul_add_div hpos, Nat.div_eq_of_lt hin, Nat.add_zero]
    have hmod : (leading * exponent + fraction + 1) % leading = fraction + 1 := by
      rw [Nat.add_assoc, Nat.mul_add_mod, Nat.mod_eq_of_lt hin]
    simp only [hdiv, hmod]
    split
    next h => rw [h, Nat.zero_sub, Nat.pow_zero]
    next h => ring
  · -- The fraction starts anew under the next exponent.
    obtain rfl : leading = fraction + 1 := by omega
    have hdiv : ((fraction + 1) * exponent + fraction + 1) / (fraction + 1) = exponent + 1 := by
      rw [Nat.add_assoc, Nat.mul_add_div hpos, Nat.div_self hpos]
    have hmod : ((fraction + 1) * exponent + fraction + 1) % (fraction + 1) = 0 := by
      rw [Nat.add_assoc, Nat.mul_add_mod, Nat.mod_self]
    simp only [hdiv, hmod, Nat.add_eq_zero_iff, Nat.one_ne_zero, and_false, if_false]
    split
    next h =>
      subst h
      simp
    next h =>
      obtain ⟨n, rfl⟩ : ∃ n, exponent = n + 1 := ⟨exponent - 1, by omega⟩
      simp only [Nat.add_sub_cancel]
      ring

private theorem codeValue_succ (code : Nat) :
    format.codeValue (code + 1) = format.codeValue code + format.gap code * 2 ^ format.lowest := by
  unfold codeValue
  rw [units_succ, Nat.cast_add, add_mul]

/-- Codes are ordered as the numbers they stand for. -/
theorem codeValue_strictMono : StrictMono format.codeValue := by
  refine strictMono_nat_of_lt_succ fun code => ?_
  rw [codeValue_succ]
  have hgap : 0 < format.gap code := Nat.two_pow_pos _
  have hstep : (0 : ℚ) < format.gap code * 2 ^ format.lowest := by positivity
  linarith

theorem codeValue_zero : format.codeValue 0 = 0 := by
  simp [codeValue, units]

/-! ## Rounding -/

/-- A number is rounded to the nearest code, and to an even one if two are equally near. -/
structure RoundsTo (format : FloatFormat) (x : ℚ) (code : Nat) : Prop where
  le : code ≤ format.infinityCode
  nearest : ∀ other ≤ format.infinityCode,
    |x - format.codeValue code| ≤ |x - format.codeValue other|
  even_of_tie : ∀ other ≤ format.infinityCode, other ≠ code →
    |x - format.codeValue code| = |x - format.codeValue other| → code % 2 = 0

/-- The upper one of two numbers is the nearer one from their middle on. -/
theorem nearer_upper_iff {a b x : ℚ} (h : a < b) : |x - b| ≤ |x - a| ↔ (a + b) / 2 ≤ x := by
  rcases abs_cases (x - a) with ha | ha <;> rcases abs_cases (x - b) with hb | hb <;>
    constructor <;> intro <;> linarith

/-- The lower one of two numbers is the nearer one up to their middle. -/
theorem nearer_lower_iff {a b x : ℚ} (h : a < b) : |x - a| ≤ |x - b| ↔ x ≤ (a + b) / 2 := by
  rcases abs_cases (x - a) with ha | ha <;> rcases abs_cases (x - b) with hb | hb <;>
    constructor <;> intro <;> linarith

/-- Of two codes a number rounds to, the first cannot be the smaller one. -/
theorem RoundsTo.not_lt {x : ℚ} {a b : Nat} (ha : format.RoundsTo x a)
    (hb : format.RoundsTo x b) : ¬a < b := by
  intro hlt
  have htie : |x - format.codeValue a| = |x - format.codeValue b| :=
    le_antisymm (ha.nearest b hb.le) (hb.nearest a ha.le)
  have hodd := ha.even_of_tie b hb.le (by omega) htie
  have hodd' := hb.even_of_tie a ha.le (by omega) htie.symm
  -- Two even codes have another one between them, which is nearer.
  have hle := hb.le
  have hlow : format.codeValue a < format.codeValue (a + 1) := codeValue_strictMono (by omega)
  have hhigh : format.codeValue (a + 1) < format.codeValue b := codeValue_strictMono (by omega)
  have hbelow := (nearer_lower_iff hlow).mp (ha.nearest (a + 1) (by omega))
  have habove := (nearer_upper_iff hhigh).mp (hb.nearest (a + 1) (by omega))
  linarith

/-- A number rounds to one code at most. -/
theorem RoundsTo.unique {x : ℚ} {a b : Nat} (ha : format.RoundsTo x a)
    (hb : format.RoundsTo x b) : a = b := by
  have hab := ha.not_lt hb
  have hba := hb.not_lt ha
  omega

/-- The midpoint between a code and the next. -/
def midpoint (format : FloatFormat) (code : Nat) : ℚ :=
  (format.codeValue code + format.codeValue (code + 1)) / 2

/-- What lies between the midpoints to both neighbours rounds to a code, the midpoints
themselves only if the code is even. -/
theorem roundsTo_of_between {x : ℚ} (hcode : code ≤ format.infinityCode)
    (hlow : ∀ before, code = before + 1 → format.midpoint before ≤ x)
    (hhigh : x ≤ format.midpoint code)
    (hodd : code % 2 ≠ 0 →
      (∀ before, code = before + 1 → format.midpoint before ≠ x) ∧ x ≠ format.midpoint code) :
    format.RoundsTo x code := by
  have hnear : ∀ other, other ≠ code →
      |x - format.codeValue code| ≤ |x - format.codeValue other|
        ∧ (|x - format.codeValue code| = |x - format.codeValue other| → code % 2 = 0) := by
    intro other hne
    rcases Nat.lt_or_gt_of_ne hne with hlt | hgt
    · obtain ⟨before, rfl⟩ : ∃ n, code = n + 1 := ⟨code - 1, by omega⟩
      have hle : format.codeValue other ≤ format.codeValue before :=
        codeValue_strictMono.monotone (by omega)
      have hmid := hlow before rfl
      rw [midpoint] at hmid
      refine ⟨(nearer_upper_iff (codeValue_strictMono hlt)).mpr (by linarith), fun htie => ?_⟩
      have hbelow := (nearer_lower_iff (codeValue_strictMono hlt)).mp htie.ge
      by_contra hcode
      refine (hodd hcode).1 before rfl ?_
      rw [midpoint]
      linarith
    · have hle : format.codeValue (code + 1) ≤ format.codeValue other :=
        codeValue_strictMono.monotone (by omega)
      have hmid := hhigh
      rw [midpoint] at hmid
      refine ⟨(nearer_lower_iff (codeValue_strictMono hgt)).mpr (by linarith), fun htie => ?_⟩
      have habove := (nearer_upper_iff (codeValue_strictMono hgt)).mp htie.ge
      by_contra hcode
      refine (hodd hcode).2 ?_
      rw [midpoint]
      linarith
  refine ⟨hcode, fun other _ => ?_, fun other _ hne => (hnear other hne).2⟩
  by_cases hne : other = code
  · rw [hne]
  · exact (hnear other hne).1

end FloatFormat

/-! ## Mantissa and exponent -/

namespace FiniteMagnitude

variable (v : FiniteMagnitude)

/-- A quarter of the unit in the last place. -/
def quarter : ℚ := 2 ^ (v.exponent - 2)

/-- The number itself. -/
def value : ℚ := v.mantissa * 2 ^ v.exponent

/-- How many quarters below the number still round to it. -/
def below : Nat := if v.closeBelow then 1 else 2

/-- The lower end of what rounds to the number. -/
def low : ℚ := (4 * v.mantissa - v.below) * v.quarter

/-- The upper end of what rounds to the number. -/
def high : ℚ := (4 * v.mantissa + 2) * v.quarter

/-- What rounds to the number: everything between the ends, and these if the mantissa is even. -/
def Attracts (y : ℚ) : Prop :=
  if v.mantissa % 2 = 0 then v.low ≤ y ∧ y ≤ v.high else v.low < y ∧ y < v.high

theorem quarter_pos : 0 < v.quarter := by
  unfold quarter
  positivity

theorem four_mul_quarter : 4 * v.quarter = 2 ^ v.exponent := by
  unfold quarter
  rw [zpow_sub₀ two_ne_zero]
  ring

/-- The value in quarters of its unit. -/
theorem value_eq_quarters : v.value = 4 * v.mantissa * v.quarter := by
  rw [value, ← four_mul_quarter]
  ring

variable {v} {y : ℚ}

/-- What is rounded to a value is not below its interval. -/
theorem Attracts.low_le (h : v.Attracts y) : v.low ≤ y := by
  unfold Attracts at h
  split at h
  · exact h.1
  · exact h.1.le

/-- Nor above it. -/
theorem Attracts.le_high (h : v.Attracts y) : y ≤ v.high := by
  unfold Attracts at h
  split at h
  · exact h.2
  · exact h.2.le

/-- All that lies inside the interval is rounded to the value. -/
theorem attracts_of_lt (hlow : v.low < y) (hhigh : y < v.high) : v.Attracts y := by
  unfold Attracts
  split
  · exact ⟨hlow.le, hhigh.le⟩
  · exact ⟨hlow, hhigh⟩

end FiniteMagnitude

namespace FloatFormat

variable {format : FloatFormat} {code : Nat}

/-- Mantissa and exponent describe what a code stands for: the number, the midpoints to its
neighbours, and whether the code is even. -/
structure Describes (format : FloatFormat) (code : Nat) (v : FiniteMagnitude) : Prop where
  value_eq : v.value = format.codeValue code
  high_eq : v.high = format.midpoint code
  low_eq : ∀ before, code = before + 1 → v.low = format.midpoint before
  mantissa_mod : v.mantissa % 2 = code % 2
  mantissa_lt : v.mantissa < 2 ^ (format.fractionBits + 1)
  mantissa_of_closeBelow : v.closeBelow = true → v.mantissa = 2 ^ format.fractionBits

/-- The midpoints from the distances to the neighbours. -/
theorem Describes.of_gaps {v : FiniteMagnitude} (hvalue : v.value = format.codeValue code)
    (hgap : 4 * v.quarter = format.gap code * 2 ^ format.lowest)
    (hbelow : ∀ before, code = before + 1 → 2 * format.gap before = v.below * format.gap code)
    (hmod : v.mantissa % 2 = code % 2) (hlt : v.mantissa < 2 ^ (format.fractionBits + 1))
    (hclose : v.closeBelow = true → v.mantissa = 2 ^ format.fractionBits) :
    Describes format code v := by
  have hquarters := v.value_eq_quarters
  refine ⟨hvalue, ?_, ?_, hmod, hlt, hclose⟩
  · unfold FiniteMagnitude.high midpoint
    rw [codeValue_succ, ← hvalue, ← hgap, hquarters]
    ring
  · rintro before rfl
    have hstep : format.codeValue (before + 1) = _ := codeValue_succ before
    have hhalf : (2 : ℚ) * format.gap before = v.below * format.gap (before + 1) := by
      exact_mod_cast hbelow before rfl
    unfold FiniteMagnitude.low midpoint
    rw [← hvalue] at hstep ⊢
    have hdown : 2 * (format.gap before * (2 : ℚ) ^ format.lowest) = v.below * (4 * v.quarter) := by
      rw [hgap, ← mul_assoc, hhalf, mul_assoc]
    linarith

/-- The mantissa and exponent of a code. -/
def magnitude (format : FloatFormat) (code : Nat) : FiniteMagnitude :=
  let exponent := code / 2 ^ format.fractionBits
  let fraction := code % 2 ^ format.fractionBits
  if exponent = 0 then ⟨fraction, format.lowest, false⟩
  else ⟨2 ^ format.fractionBits + fraction, format.lowest + (exponent - 1),
    fraction == 0 && exponent != 1⟩

/-- The code of a pattern is all of it but the sign. -/
theorem code_eq (bits : Nat) :
    format.code bits = bits % 2 ^ (format.fractionBits + format.exponentBits) := rfl

/-- The patterns below that of infinity are classified by mantissa and exponent. -/
theorem classify_finite {bits : Nat} (h : format.code bits < format.infinityCode) :
    format.classify bits = .finite (format.magnitude (format.code bits)) := by
  have hexponent : format.code bits / 2 ^ format.fractionBits
      = bits / 2 ^ format.fractionBits % 2 ^ format.exponentBits := by
    rw [code_eq, Nat.pow_add, Nat.mod_mul_right_div_self]
  have hfraction : format.code bits % 2 ^ format.fractionBits
      = bits % 2 ^ format.fractionBits := by
    rw [code_eq, Nat.pow_add, Nat.mod_mod_of_dvd _ (Nat.dvd_mul_right ..)]
  have hfinite := (Nat.div_lt_iff_lt_mul (Nat.two_pow_pos format.fractionBits)).mpr h
  rw [hexponent] at hfinite
  rw [magnitude, hexponent, hfraction, apply_ite FloatClass.finite]
  exact if_neg (Nat.ne_of_lt hfinite)

private theorem describes_subnormal (hf : 0 < format.fractionBits)
    (h : code / 2 ^ format.fractionBits = 0) : Describes format code (format.magnitude code) := by
  have hgap : ∀ other ≤ code, format.gap other = 1 := by
    intro other hle
    have hzero : other / 2 ^ format.fractionBits ≤ 0 := h ▸ Nat.div_le_div_right hle
    rw [gap, Nat.le_zero.mp hzero]
    rfl
  rw [magnitude, if_pos h]
  refine .of_gaps ?_ ?_ ?_ ?_ ?_ nofun
  · rw [codeValue, units, if_pos h]
    rfl
  · rw [FiniteMagnitude.four_mul_quarter, hgap code le_rfl, Nat.cast_one, one_mul]
  · rintro before rfl
    rw [hgap _ le_rfl, hgap _ (by omega)]
    rfl
  · exact Nat.mod_mod_of_dvd _ (dvd_pow_self 2 (by omega))
  · show code % 2 ^ format.fractionBits < _
    have hlt := Nat.mod_lt code (Nat.two_pow_pos format.fractionBits)
    rw [Nat.pow_succ]
    omega

/-- The distance down to the number before a normal one. -/
theorem gap_pred {before : Nat} (h : code = before + 1)
    (hnormal : code / 2 ^ format.fractionBits ≠ 0) :
    2 * format.gap before = (format.magnitude code).below * format.gap code := by
  subst h
  have hdiv : (before + 1) / 2 ^ format.fractionBits = before / 2 ^ format.fractionBits
      + if (before + 1) % 2 ^ format.fractionBits = 0 then 1 else 0 := by
    rw [Nat.succ_div]
    simp only [Nat.dvd_iff_mod_eq_zero]
  rw [magnitude, if_neg hnormal, FiniteMagnitude.below, gap, gap]
  generalize (before + 1) / 2 ^ format.fractionBits = exponent at hdiv hnormal
  generalize (before + 1) % 2 ^ format.fractionBits = fraction at hdiv
  generalize before / 2 ^ format.fractionBits = previous at hdiv
  by_cases hzero : fraction = 0
  · rw [if_pos hzero] at hdiv
    rcases Nat.eq_zero_or_pos previous with hprevious | hprevious
    · simp [hdiv, hprevious]
    · have hone : exponent ≠ 1 := by omega
      have hpow : 2 ^ (exponent - 1) = 2 * 2 ^ (previous - 1) := by
        rw [← Nat.pow_succ']
        congr 1
        omega
      simp [hzero, hone, hpow]
  · rw [if_neg hzero, Nat.add_zero] at hdiv
    simp [hzero, hdiv]

private theorem describes_normal (hf : 0 < format.fractionBits)
    (h : code / 2 ^ format.fractionBits ≠ 0) : Describes format code (format.magnitude code) := by
  have hpow : (2 : ℚ) ^ (format.lowest + ((code / 2 ^ format.fractionBits : Nat) - 1 : Int))
      = format.gap code * 2 ^ format.lowest := by
    have hcast : ((code / 2 ^ format.fractionBits : Nat) - 1 : Int)
        = (code / 2 ^ format.fractionBits - 1 : Nat) := by
      rw [Int.ofNat_sub (Nat.one_le_iff_ne_zero.mpr h)]
      rfl
    rw [hcast, add_comm, zpow_add₀ two_ne_zero, zpow_natCast, gap, Nat.cast_pow, Nat.cast_ofNat]
  have hdvd : 2 ∣ 2 ^ format.fractionBits := dvd_pow_self 2 (by omega)
  have hlt := Nat.mod_lt code (Nat.two_pow_pos format.fractionBits)
  have hmod := Nat.mod_mod_of_dvd code hdvd
  refine .of_gaps ?_ ?_ (fun before hbefore => gap_pred hbefore h) ?_ ?_ ?_ <;>
    rw [magnitude, if_neg h]
  · rw [FiniteMagnitude.value, hpow, codeValue, units, if_neg h, gap, ← mul_assoc, Nat.cast_mul]
  · rw [FiniteMagnitude.four_mul_quarter, hpow]
  · show (2 ^ format.fractionBits + code % 2 ^ format.fractionBits) % 2 = code % 2
    omega
  · show 2 ^ format.fractionBits + code % 2 ^ format.fractionBits < 2 ^ (format.fractionBits + 1)
    rw [Nat.pow_succ]
    omega
  · intro hclose
    have hzero : code % 2 ^ format.fractionBits = 0 := by
      simp only [Bool.and_eq_true, beq_iff_eq] at hclose
      exact hclose.1
    show 2 ^ format.fractionBits + code % 2 ^ format.fractionBits = _
    rw [hzero, Nat.add_zero]

/-- The mantissa and the exponent of a code describe its value and its neighbours. -/
theorem describes_magnitude (hf : 0 < format.fractionBits) (code : Nat) :
    Describes format code (format.magnitude code) := by
  by_cases h : code / 2 ^ format.fractionBits = 0
  · exact describes_subnormal hf h
  · exact describes_normal hf h

/-- What the mantissa and exponent attract rounds to the code. -/
theorem Describes.roundsTo {v : FiniteMagnitude} {y : ℚ} (h : Describes format code v)
    (hcode : code ≤ format.infinityCode) (hy : v.Attracts y) : format.RoundsTo y code := by
  refine roundsTo_of_between hcode ?_ (h.high_eq ▸ hy.le_high) fun hodd => ?_
  · intro before hbefore
    exact h.low_eq before hbefore ▸ hy.low_le
  · rw [FiniteMagnitude.Attracts, h.mantissa_mod, if_neg hodd, h.high_eq] at hy
    refine ⟨fun before hbefore => ?_, hy.2.ne⟩
    rw [← h.low_eq before hbefore]
    exact hy.1.ne

/-- What rounds to a code other than zero is attracted by its mantissa and exponent. -/
theorem Describes.attracts {v : FiniteMagnitude} {y : ℚ} (h : Describes format code v)
    (hpos : 0 < code) (hcode : code < format.infinityCode) (hy : format.RoundsTo y code) :
    v.Attracts y := by
  obtain ⟨before, rfl⟩ : ∃ n, code = n + 1 := ⟨code - 1, by omega⟩
  have hdown : format.codeValue before < format.codeValue (before + 1) :=
    codeValue_strictMono (by omega)
  have hup : format.codeValue (before + 1) < format.codeValue (before + 1 + 1) :=
    codeValue_strictMono (by omega)
  have hlow : format.midpoint before ≤ y :=
    (nearer_upper_iff hdown).mp (hy.nearest before (by omega))
  have hhigh : y ≤ format.midpoint (before + 1) :=
    (nearer_lower_iff hup).mp (hy.nearest (before + 1 + 1) (by omega))
  rw [FiniteMagnitude.Attracts, h.mantissa_mod, h.high_eq, h.low_eq before rfl]
  split
  next => exact ⟨hlow, hhigh⟩
  next hodd =>
    refine ⟨lt_of_le_of_ne hlow fun htie => hodd ?_, lt_of_le_of_ne hhigh fun htie => hodd ?_⟩
    · refine hy.even_of_tie before (by omega) (by omega) (le_antisymm ?_ ?_)
      · exact hy.nearest before (by omega)
      · exact (nearer_lower_iff hdown).mpr htie.ge
    · refine hy.even_of_tie (before + 1 + 1) (by omega) (by omega) (le_antisymm ?_ ?_)
      · exact hy.nearest (before + 1 + 1) (by omega)
      · exact (nearer_upper_iff hup).mpr htie.ge

end FloatFormat

end Classdesk
