import Classdesk.Proofs.Number.Rounding

/-!
# The shortest decimal

The search for the shortest decimal goes over grids of more and more places, and takes a
neighbour of the number on the first grid that has one that rounds to it.

> `shortest_attracts`: the decimal found rounds to the number, and is not zero.
> `shortest_fewest`: no decimal with fewer digits rounds to the number.

The search ends since the nearest multiple of `10 ^ s` is at most half of that away, and with
seventeen places this is less than what the number attracts (`onGrid?_seventeen`). It misses
nothing since between the number and anything it attracts it attracts everything
(`Attracts.between`), so a neighbour on the grid as well.
-/

namespace Classdesk

/-- A power by an integer as a fraction of powers. -/
theorem pow_toNat {b : ℚ} (hb : b ≠ 0) (n : Int) : b ^ n.toNat = b ^ n * b ^ (-n).toNat := by
  rcases le_total 0 n with hn | hn
  · obtain ⟨k, rfl⟩ := Int.eq_ofNat_of_zero_le hn
    simp
  · obtain ⟨k, hk⟩ := Int.eq_ofNat_of_zero_le (Int.neg_nonneg.mpr hn)
    rw [hk, Int.toNat_of_nonpos hn, ← neg_neg n, hk]
    simp [hb]

/-- A power of ten from a whole one and one with any exponent. -/
theorem pow_mul_zpow {k : Nat} {s r : Int} (h : k + s = r) :
    ((10 ^ k : Nat) : ℚ) * 10 ^ s = 10 ^ r := by
  rw [Nat.cast_pow, Nat.cast_ofNat, ← zpow_natCast, ← zpow_add₀ (by norm_num), h]

namespace Decimal

/-- The number a decimal stands for. -/
def value (d : Decimal) : ℚ := d.digits * 10 ^ d.exponent

end Decimal

namespace FiniteMagnitude

variable {v : FiniteMagnitude} {x c : Nat} {s : Int}

/-! ## Comparing without fractions -/

private theorem scaled_den_pos (v : FiniteMagnitude) (x : Nat) (s : Int) : 0 < (v.scaled x s).2 :=
  Nat.mul_pos (Nat.pow_pos (by decide)) (Nat.pow_pos (by decide))

private theorem scaled_num (v : FiniteMagnitude) (x : Nat) (s : Int) :
    ((v.scaled x s).1 : ℚ) * 10 ^ s = x * v.quarter * (v.scaled x s).2 := by
  have htwo : (2 : ℚ) ^ (v.exponent - 2).toNat = v.quarter * 2 ^ (2 - v.exponent).toNat := by
    rw [pow_toNat two_ne_zero, neg_sub]
    rfl
  have hten : (10 : ℚ) ^ s.toNat = 10 ^ s * 10 ^ (-s).toNat := pow_toNat (by norm_num) s
  show ((x * 2 ^ (v.exponent - 2).toNat * 10 ^ (-s).toNat : Nat) : ℚ) * 10 ^ s
    = x * v.quarter * (2 ^ (2 - v.exponent).toNat * 10 ^ s.toNat : Nat)
  push_cast
  rw [htwo, hten]
  ring

/-- A scaled fraction is the number of quarters on the decimal grid. -/
private theorem scaled_ratio (v : FiniteMagnitude) (x : Nat) (s : Int) :
    ((v.scaled x s).1 : ℚ) / (v.scaled x s).2 = x * v.quarter / 10 ^ s := by
  have hden : ((v.scaled x s).2 : ℚ) ≠ 0 := by exact_mod_cast (scaled_den_pos v x s).ne'
  rw [div_eq_div_iff hden (by positivity), scaled_num]

/-- Comparing the scaled numbers compares the numbers. -/
theorem scaled_le_iff : (v.scaled x s).1 ≤ c * (v.scaled x s).2 ↔ x * v.quarter ≤ c * 10 ^ s := by
  have hden : (0 : ℚ) < (v.scaled x s).2 := by exact_mod_cast scaled_den_pos v x s
  rw [← div_le_iff₀ (by positivity), ← scaled_ratio, div_le_iff₀ hden]
  norm_cast

private theorem le_scaled_iff :
    c * (v.scaled x s).2 ≤ (v.scaled x s).1 ↔ c * 10 ^ s ≤ x * v.quarter := by
  have hden : (0 : ℚ) < (v.scaled x s).2 := by exact_mod_cast scaled_den_pos v x s
  rw [← le_div_iff₀ (by positivity), ← scaled_ratio, le_div_iff₀ hden]
  norm_cast

private theorem scaled_lt_iff :
    (v.scaled x s).1 < c * (v.scaled x s).2 ↔ x * v.quarter < c * 10 ^ s := by
  rw [← not_le, ← not_le, le_scaled_iff]

private theorem lt_scaled_iff :
    c * (v.scaled x s).2 < (v.scaled x s).1 ↔ c * 10 ^ s < x * v.quarter := by
  rw [← not_le, ← not_le, scaled_le_iff]

/-! ## What the number attracts -/

private theorem below_pos (v : FiniteMagnitude) : 0 < v.below := by
  unfold below
  split <;> decide

private theorem below_le_two (v : FiniteMagnitude) : v.below ≤ 2 := by
  unfold below
  split <;> decide

/-- The lower end, one or two quarters below the value. -/
theorem low_eq (v : FiniteMagnitude) : v.low = v.value - v.below * v.quarter := by
  rw [low, value_eq_quarters]
  ring

/-- The upper end, two quarters above it. -/
theorem high_eq (v : FiniteMagnitude) : v.high = v.value + 2 * v.quarter := by
  rw [high, value_eq_quarters]
  ring

theorem low_lt_value (v : FiniteMagnitude) : v.low < v.value := by
  have hbelow : (0 : ℚ) < v.below := by exact_mod_cast v.below_pos
  have hstep := mul_pos hbelow v.quarter_pos
  rw [low_eq]
  linarith

theorem value_lt_high (v : FiniteMagnitude) : v.value < v.high := by
  have hquarter := v.quarter_pos
  rw [high_eq]
  linarith

/-- What lies between the number and something it attracts is attracted too. -/
theorem Attracts.between {y z : ℚ} (h : v.Attracts y)
    (hz : y ≤ z ∧ z ≤ v.value ∨ v.value ≤ z ∧ z ≤ y) : v.Attracts z := by
  have hlow := v.low_lt_value
  have hhigh := v.value_lt_high
  unfold Attracts at h ⊢
  by_cases heven : v.mantissa % 2 = 0
  · rw [if_pos heven] at h ⊢
    rcases hz with hz | hz <;> exact ⟨by linarith, by linarith⟩
  · rw [if_neg heven] at h ⊢
    rcases hz with hz | hz <;> exact ⟨by linarith, by linarith⟩

/-- Whatever a number other than zero attracts is positive. -/
theorem low_pos (hm : 0 < v.mantissa) : 0 < v.low := by
  have hone : (1 : ℚ) ≤ v.mantissa := by exact_mod_cast hm
  have hbelow : (v.below : ℚ) ≤ 2 := by exact_mod_cast v.below_le_two
  exact mul_pos (by linarith) v.quarter_pos

/-- The test in integers decides whether a decimal is rounded to the value. -/
private theorem contains_iff (hm : 0 < v.mantissa) :
    v.contains c s = true ↔ v.Attracts (c * 10 ^ s) := by
  have hlow : v.low = (4 * v.mantissa - v.below : Nat) * v.quarter := by
    have := v.below_le_two
    rw [low, Nat.cast_sub (by omega)]
    push_cast
    rfl
  have hhigh : v.high = (4 * v.mantissa + 2 : Nat) * v.quarter := by
    rw [high]
    push_cast
    rfl
  rw [Attracts, hlow, hhigh, ← scaled_le_iff, ← scaled_lt_iff, ← le_scaled_iff, ← lt_scaled_iff]
  show (if v.mantissa % 2 = 0 then _ else _) = true ↔ _
  split
  next =>
    rw [Bool.and_eq_true, decide_eq_true_eq, decide_eq_true_eq]
    rfl
  next =>
    rw [Bool.and_eq_true, decide_eq_true_eq, decide_eq_true_eq]
    rfl

/-! ## Grids -/

/-- The last multiple of `10 ^ s` up to the number. -/
def floorOn (v : FiniteMagnitude) (s : Int) : Nat :=
  (v.scaled (4 * v.mantissa) s).1 / (v.scaled (4 * v.mantissa) s).2

private theorem floorOn_le (v : FiniteMagnitude) (s : Int) : v.floorOn s * 10 ^ s ≤ v.value := by
  have hfloor := le_scaled_iff.mp (Nat.div_mul_le_self (v.scaled (4 * v.mantissa) s).1 _)
  rw [value_eq_quarters]
  exact_mod_cast hfloor

private theorem lt_floorOn_succ (v : FiniteMagnitude) (s : Int) :
    v.value < (v.floorOn s + 1 : Nat) * 10 ^ s := by
  have hfloor : (v.scaled (4 * v.mantissa) s).1
      < (v.floorOn s + 1) * (v.scaled (4 * v.mantissa) s).2 :=
    (Nat.div_lt_iff_lt_mul (scaled_den_pos ..)).mp (Nat.lt_succ_self _)
  rw [value_eq_quarters]
  exact_mod_cast scaled_lt_iff.mp hfloor

private theorem onGrid?_eq (v : FiniteMagnitude) (s : Int) :
    v.onGrid? s = match v.contains (v.floorOn s) s, v.contains (v.floorOn s + 1) s with
      | true, true =>
        let (num, den) := v.scaled (4 * v.mantissa) s
        if 2 * (num - v.floorOn s * den) < den then some (v.floorOn s) else some (v.floorOn s + 1)
      | true, false => some (v.floorOn s)
      | false, true => some (v.floorOn s + 1)
      | false, false => none := rfl

/-- What is found on a grid is a neighbour of the number that the number attracts. -/
theorem onGrid?_eq_some (h : v.onGrid? s = some c) :
    v.contains c s = true ∧ (c = v.floorOn s ∨ c = v.floorOn s + 1) := by
  rw [onGrid?_eq] at h
  split at h
  next hdown hup =>
    dsimp only at h
    split at h
    · cases h
      exact ⟨hdown, .inl rfl⟩
    · cases h
      exact ⟨hup, .inr rfl⟩
  next hdown _ =>
    cases h
    exact ⟨hdown, .inl rfl⟩
  next _ hup =>
    cases h
    exact ⟨hup, .inr rfl⟩
  next => cases h

/-- Something is found if the number attracts one of its neighbours. -/
theorem onGrid?_isSome (h : v.contains (v.floorOn s) s = true
    ∨ v.contains (v.floorOn s + 1) s = true) : (v.onGrid? s).isSome := by
  rw [onGrid?_eq]
  split
  next =>
    dsimp only
    split <;> rfl
  next => rfl
  next => rfl
  next hdown hup =>
    rw [hdown, hup] at h
    rcases h with h | h <;> cases h

/-- Something is found on a grid with a multiple that the number attracts. -/
theorem onGrid?_isSome_of_attracts (hm : 0 < v.mantissa) (h : v.Attracts (c * 10 ^ s)) :
    (v.onGrid? s).isSome := by
  have hten : (0 : ℚ) ≤ 10 ^ s := by positivity
  apply onGrid?_isSome
  rw [contains_iff hm, contains_iff hm]
  rcases Nat.lt_or_ge (v.floorOn s) c with hlt | hge
  · right
    refine h.between (.inr ⟨(lt_floorOn_succ v s).le, ?_⟩)
    exact mul_le_mul_of_nonneg_right (by exact_mod_cast hlt) hten
  · left
    refine h.between (.inl ⟨?_, floorOn_le v s⟩)
    exact mul_le_mul_of_nonneg_right (by exact_mod_cast hge) hten

/-- Something is found on every grid that is fine enough. -/
theorem onGrid?_isSome_of_fine (hm : 0 < v.mantissa) (h : 10 ^ s < 2 * v.below * v.quarter) :
    (v.onGrid? s).isSome := by
  have hdown := floorOn_le v s
  have hup := lt_floorOn_succ v s
  have hbelow : (v.below : ℚ) * v.quarter ≤ 2 * v.quarter :=
    mul_le_mul_of_nonneg_right (by exact_mod_cast v.below_le_two) v.quarter_pos.le
  have hlow := v.low_eq
  have hhigh := v.high_eq
  push_cast at hup
  -- The nearer one of the neighbours is at most half a step away.
  rcases le_total (v.value - v.floorOn s * 10 ^ s) (10 ^ s / 2) with hnear | hnear
  · refine onGrid?_isSome (.inl ((contains_iff hm).mpr (attracts_of_lt ?_ ?_)))
    · linarith
    · linarith
  · refine onGrid?_isSome (.inr ((contains_iff hm).mpr (attracts_of_lt ?_ ?_)))
    · push_cast
      linarith
    · push_cast
      linarith

/-! ## The leading digit -/

private theorem lt_pow_decimalLength (n : Nat) : n < 10 ^ decimalLength n :=
  (Nat.length_toDigits_le_iff (by decide) Nat.length_toDigits_pos).mp le_rfl

theorem decimalLength_pos (n : Nat) : 0 < decimalLength n := Nat.length_toDigits_pos

private theorem pow_decimalLength_le {n : Nat} (hn : 0 < n) : 10 ^ (decimalLength n - 1) ≤ n := by
  rcases Nat.eq_zero_or_pos (decimalLength n - 1) with hzero | hpos
  · rw [hzero]
    exact hn
  · by_contra hlt
    have := (Nat.length_toDigits_le_iff (by decide) hpos).mpr (Nat.lt_of_not_le hlt)
    rw [← decimalLength] at this
    omega

/-- The exponent of the leading digit of a fraction. -/
def leadingPlace (num den : Nat) : Int :=
  if den ≤ num then (decimalLength (num / den) : Int) - 1
  else -(decimalLength ((den + num - 1) / num - 1) : Int)

private theorem leadingPlace_of_le {num den : Nat} (hden : 0 < den) (h : den ≤ num) :
    10 ^ leadingPlace num den * (den : ℚ) ≤ num
      ∧ (num : ℚ) < 10 ^ (leadingPlace num den + 1) * den := by
  rw [leadingPlace, if_pos h]
  have hlow := pow_decimalLength_le (Nat.div_pos h hden)
  have hhigh := lt_pow_decimalLength (num / den)
  have hlength := decimalLength_pos (num / den)
  generalize decimalLength (num / den) = length at *
  constructor
  · rw [← Nat.cast_one, ← Int.ofNat_sub hlength, zpow_natCast]
    exact_mod_cast (Nat.le_div_iff_mul_le hden).mp hlow
  · rw [Int.sub_add_cancel, zpow_natCast]
    exact_mod_cast (Nat.div_lt_iff_lt_mul hden).mp hhigh

private theorem leadingPlace_of_lt {num den : Nat} (hnum : 0 < num) (h : num < den) :
    10 ^ leadingPlace num den * (den : ℚ) ≤ num
      ∧ (num : ℚ) < 10 ^ (leadingPlace num den + 1) * den := by
  rw [leadingPlace, if_neg (by omega)]
  -- `ceiling` is the fraction turned over, rounded up.
  have hfloor := Nat.div_mul_le_self (den + num - 1) num
  have hceil := Nat.lt_div_mul_add (a := den + num - 1) hnum
  generalize (den + num - 1) / num = ceiling at *
  have htwo : 0 < ceiling - 1 := by
    by_contra hsmall
    have : ceiling * num ≤ 1 * num := Nat.mul_le_mul_right _ (by omega)
    omega
  have hlow := pow_decimalLength_le htwo
  have hhigh := lt_pow_decimalLength (ceiling - 1)
  have hlength := decimalLength_pos (ceiling - 1)
  generalize decimalLength (ceiling - 1) = length at *
  constructor
  · have hle : den ≤ 10 ^ length * num := by
      have := Nat.mul_le_mul_right num (show ceiling ≤ 10 ^ length by omega)
      omega
    rw [zpow_neg, zpow_natCast, inv_mul_le_iff₀ (by positivity)]
    exact_mod_cast hle
  · have hlt : 10 ^ (length - 1) * num < den := by
      have := Nat.mul_le_mul_right num hlow
      rw [Nat.sub_mul] at this
      omega
    rw [show -(length : Int) + 1 = -((length - 1 : Nat) : Int) by omega, zpow_neg, zpow_natCast,
      lt_inv_mul_iff₀ (by positivity)]
    exact_mod_cast hlt

/-- The leading digit has the place it should have. -/
theorem leadingExponent_spec (hm : 0 < v.mantissa) :
    10 ^ v.leadingExponent ≤ v.value ∧ v.value < 10 ^ (v.leadingExponent + 1) := by
  have hvalue : 0 < v.value := by
    have hquarter := v.quarter_pos
    rw [value_eq_quarters]
    positivity
  have hlead : v.leadingExponent
      = leadingPlace (v.scaled (4 * v.mantissa) 0).1 (v.scaled (4 * v.mantissa) 0).2 := rfl
  have hden := scaled_den_pos v (4 * v.mantissa) 0
  have hratio : ((v.scaled (4 * v.mantissa) 0).1 : ℚ)
      = v.value * (v.scaled (4 * v.mantissa) 0).2 := by
    have hnum := scaled_num v (4 * v.mantissa) 0
    rw [zpow_zero, mul_one] at hnum
    rw [hnum, value_eq_quarters]
    push_cast
    rfl
  rw [hlead]
  generalize (v.scaled (4 * v.mantissa) 0).1 = num at *
  generalize (v.scaled (4 * v.mantissa) 0).2 = den at *
  have hpos : (0 : ℚ) < den := by exact_mod_cast hden
  have hplace : 10 ^ leadingPlace num den * (den : ℚ) ≤ num
      ∧ (num : ℚ) < 10 ^ (leadingPlace num den + 1) * den := by
    rcases Nat.lt_or_ge num den with hlt | hge
    · refine leadingPlace_of_lt ?_ hlt
      rw [← @Nat.cast_pos ℚ, hratio]
      positivity
    · exact leadingPlace_of_le hden hge
  rw [hratio] at hplace
  exact ⟨le_of_mul_le_mul_right hplace.1 hpos, lt_of_mul_lt_mul_right hplace.2 hpos.le⟩

/-! ## The search -/

/-- The grid with some number of places. -/
def gridOf (v : FiniteMagnitude) (places : Nat) : Int := v.leadingExponent - places + 1

private theorem pow_leadingExponent {places : Nat} (h : 0 < places) :
    ((10 ^ (places - 1) : Nat) : ℚ) * 10 ^ v.gridOf places = 10 ^ v.leadingExponent := by
  apply pow_mul_zpow
  unfold gridOf
  omega

private theorem search_succ (v : FiniteMagnitude) (rounds places : Nat) :
    v.search v.leadingExponent (rounds + 1) places
      = match v.onGrid? (v.gridOf places) with
        | some c => ⟨c, v.gridOf places⟩
        | none => v.search v.leadingExponent rounds (places + 1) := rfl

/-- The search stops at the first grid on which there is something. -/
theorem search_spec {rounds places : Nat}
    (h : ∃ k < rounds, (v.onGrid? (v.gridOf (places + k))).isSome) :
    ∃ k < rounds, (v.search v.leadingExponent rounds places).exponent = v.gridOf (places + k)
      ∧ v.onGrid? (v.gridOf (places + k))
        = some (v.search v.leadingExponent rounds places).digits
      ∧ ∀ j < k, v.onGrid? (v.gridOf (places + j)) = none := by
  induction rounds generalizing places with
  | zero =>
    obtain ⟨k, hk, -⟩ := h
    omega
  | succ rounds ih =>
    rw [search_succ]
    cases hfirst : v.onGrid? (v.gridOf places) with
    | some c => exact ⟨0, by omega, rfl, hfirst, fun j hj => by omega⟩
    | none =>
      have hlater : ∃ k < rounds, (v.onGrid? (v.gridOf (places + 1 + k))).isSome := by
        obtain ⟨k, hk, hsome⟩ := h
        cases k with
        | zero =>
          rw [Nat.add_zero, hfirst] at hsome
          cases hsome
        | succ k =>
          rw [Nat.add_comm k, ← Nat.add_assoc] at hsome
          exact ⟨k, by omega, hsome⟩
      obtain ⟨k, hk, hexponent, hdigits, hbefore⟩ := ih hlater
      rw [Nat.add_assoc, Nat.add_comm 1] at hexponent hdigits
      refine ⟨k + 1, by omega, hexponent, hdigits, fun j hj => ?_⟩
      cases j with
      | zero => exact hfirst
      | succ j =>
        rw [Nat.add_comm j, ← Nat.add_assoc]
        exact hbefore j (by omega)

/-- Seventeen places are enough for a mantissa of both formats. -/
theorem onGrid?_seventeen (hm : 0 < v.mantissa) (h : 2 * v.mantissa < v.below * 10 ^ 16) :
    (v.onGrid? (v.gridOf 17)).isSome := by
  apply onGrid?_isSome_of_fine hm
  have hlead := (leadingExponent_spec hm).1
  have hsmall : (2 * v.mantissa : ℚ) < v.below * 10 ^ 16 := by exact_mod_cast h
  have hquarters := mul_lt_mul_of_pos_right hsmall v.quarter_pos
  rw [← pow_leadingExponent (by decide : 0 < 17), value_eq_quarters] at hlead
  push_cast at hlead
  linarith

/-- The decimal found is on the first grid that has something to find. -/
theorem shortest_spec (hm : 0 < v.mantissa) (h : 2 * v.mantissa < v.below * 10 ^ 16) :
    ∃ places, 0 < places ∧ v.shortest.exponent = v.gridOf places
      ∧ v.onGrid? (v.gridOf places) = some v.shortest.digits
      ∧ ∀ fewer, 0 < fewer → fewer < places → v.onGrid? (v.gridOf fewer) = none := by
  obtain ⟨k, -, hexponent, hdigits, hbefore⟩ :=
    @search_spec v 17 1 ⟨16, by decide, onGrid?_seventeen hm h⟩
  refine ⟨1 + k, by omega, hexponent, hdigits, fun fewer hpos hfewer => ?_⟩
  have hnone := hbefore (fewer - 1) (by omega)
  rwa [Nat.add_sub_cancel' hpos] at hnone

/-- **The shortest decimal rounds to the number**, and is not zero. -/
theorem shortest_attracts (hm : 0 < v.mantissa) (h : 2 * v.mantissa < v.below * 10 ^ 16) :
    v.Attracts v.shortest.value ∧ 0 < v.shortest.digits := by
  obtain ⟨places, -, hexponent, hdigits, -⟩ := shortest_spec hm h
  have hattracts := (contains_iff hm).mp (onGrid?_eq_some hdigits).1
  rw [← hexponent] at hattracts
  refine ⟨hattracts, Nat.pos_of_ne_zero fun hzero => ?_⟩
  have hlow := hattracts.low_le
  rw [hzero, Nat.cast_zero, zero_mul] at hlow
  exact absurd hlow (not_le.mpr (low_pos hm))

/-! ## No decimal with fewer digits -/

/-- With something attracted that has `n` digits, there is something on a grid of at most `n`
places. -/
theorem exists_places {t : Int} (hm : 0 < v.mantissa) (h : v.Attracts (c * 10 ^ t)) :
    ∃ places, 0 < places ∧ places ≤ decimalLength c ∧ (v.onGrid? (v.gridOf places)).isSome := by
  have hlength := decimalLength_pos c
  rcases le_or_gt (v.gridOf (decimalLength c)) t with hcoarse | hfine
  · -- It is on the grid itself.
    refine ⟨decimalLength c, hlength, le_rfl, ?_⟩
    obtain ⟨k, hk⟩ := Int.eq_ofNat_of_zero_le (Int.sub_nonneg.mpr hcoarse)
    apply onGrid?_isSome_of_attracts (c := c * 10 ^ k) hm
    rwa [Nat.cast_mul, mul_assoc, pow_mul_zpow (show (k : Int) + _ = t by omega)]
  · -- It is below the power of ten with the leading digit, so that is attracted too.
    refine ⟨1, Nat.one_pos, hlength, ?_⟩
    apply onGrid?_isSome_of_attracts (c := 1) hm
    have hone : ((1 : Nat) : ℚ) * 10 ^ v.gridOf 1 = 10 ^ v.leadingExponent :=
      pow_leadingExponent Nat.one_pos
    rw [hone]
    refine h.between (.inl ⟨?_, (leadingExponent_spec hm).1⟩)
    have hle : (c : ℚ) ≤ (10 ^ decimalLength c : Nat) := by
      exact_mod_cast (lt_pow_decimalLength c).le
    calc (c : ℚ) * 10 ^ t ≤ (10 ^ decimalLength c : Nat) * 10 ^ t :=
          mul_le_mul_of_nonneg_right hle (by positivity)
      _ = 10 ^ (decimalLength c + t) := pow_mul_zpow rfl
      _ ≤ 10 ^ v.leadingExponent := by
          apply zpow_le_zpow_right₀ (by norm_num)
          unfold gridOf at hfine
          omega

/-- What is found on a grid has no more digits than the grid has places, unless it is the next
power of ten. -/
theorem onGrid?_le {places : Nat} (hm : 0 < v.mantissa)
    (h : v.onGrid? (v.gridOf places) = some c) : c ≤ 10 ^ places := by
  have hfloor : v.floorOn (v.gridOf places) < 10 ^ places := by
    have hten : (0 : ℚ) < 10 ^ v.gridOf places := by positivity
    have hvalue := (floorOn_le v (v.gridOf places)).trans_lt (leadingExponent_spec hm).2
    have hplaces : places + v.gridOf places = v.leadingExponent + 1 := by
      unfold gridOf
      omega
    rw [← pow_mul_zpow hplaces] at hvalue
    exact_mod_cast lt_of_mul_lt_mul_right hvalue hten.le
  rcases (onGrid?_eq_some h).2 with rfl | rfl <;> omega

/-- **No decimal that rounds to the number has fewer digits** than the shortest one. -/
theorem shortest_fewest {t : Int} (hm : 0 < v.mantissa) (h : 2 * v.mantissa < v.below * 10 ^ 16)
    (hc : v.Attracts (c * 10 ^ t)) :
    ∃ digits exponent, decimalLength digits ≤ decimalLength c
      ∧ v.shortest.value = (digits : ℚ) * 10 ^ (exponent : Int) := by
  obtain ⟨places, hpos, hexponent, hdigits, hbefore⟩ := shortest_spec hm h
  obtain ⟨enough, henough, hlength, hsome⟩ := exists_places hm hc
  have hplaces : places ≤ enough := by
    by_contra hlt
    rw [hbefore enough henough (by omega)] at hsome
    cases hsome
  rcases Nat.lt_or_eq_of_le (onGrid?_le hm hdigits) with hlt | heq
  · have hshort := (Nat.length_toDigits_le_iff (by decide) hpos).mpr hlt
    exact ⟨_, _, hshort.trans (hplaces.trans hlength), rfl⟩
  · refine ⟨1, places + v.shortest.exponent, decimalLength_pos c, ?_⟩
    rw [Decimal.value, heq, pow_mul_zpow rfl, Nat.cast_one, one_mul]

end FiniteMagnitude

end Classdesk
