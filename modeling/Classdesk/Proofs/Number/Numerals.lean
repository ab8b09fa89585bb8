import Classdesk.Number.Notation
import Classdesk.Proofs.Number.Shortest
import Mathlib.Data.List.DropRight
import Mathlib.Tactic.FieldSimp

/-!
# Numerals

A numeral is digits on both sides of a point, maybe a minus in front of them and maybe an
exponent behind them. No text is that of two numerals:

> `Numeral.text_injective`: a numeral can be read off its text.

Decimals are written as numerals of their own value, with a point only
(`Decimal.positional_spells`) or with one digit other than zero in front of the point and an
exponent (`Decimal.scientific_spells`).
-/

namespace Classdesk

/-- Some decimal digits, at least one. -/
@[ext] structure Digits where
  chars : List Char
  ne_nil : chars ≠ []
  isDigit : ∀ c ∈ chars, c.isDigit = true

/-- The number some digits stand for. -/
def Digits.toNat (d : Digits) : Nat := Nat.ofDigitChars 10 d.chars 0

/-- The digit zero. -/
def Digits.zero : Digits := ⟨['0'], by simp, by simp⟩

@[simp] theorem Digits.zero_chars : Digits.zero.chars = ['0'] := rfl

@[simp] theorem Digits.zero_toNat : Digits.zero.toNat = 0 := rfl

/-- The mark of a negative number. -/
def signChars (negative : Bool) : List Char := if negative then ['-'] else []

/-- A number in source notation. -/
@[ext] structure Numeral where
  negative : Bool
  whole : Digits
  fraction : Digits
  /-- The sign and the digits of the exponent, if there is one. -/
  exponent : Option (Bool × Digits)

namespace Numeral

/-- The characters behind the fraction. -/
def exponentChars : Option (Bool × Digits) → List Char
  | none => []
  | some (negative, digits) => 'E' :: (signChars negative ++ digits.chars)

/-- The text of a numeral. -/
def text (n : Numeral) : String :=
  String.ofList (signChars n.negative
    ++ (n.whole.chars ++ '.' :: (n.fraction.chars ++ exponentChars n.exponent)))

/-- The power of ten of a numeral. -/
def scale (n : Numeral) : Int :=
  match n.exponent with
  | none => 0
  | some (negative, digits) => if negative then -digits.toNat else digits.toNat

/-- The number a numeral stands for, without its sign. -/
def magnitude (n : Numeral) : ℚ :=
  (n.whole.toNat + n.fraction.toNat / 10 ^ n.fraction.chars.length) * 10 ^ n.scale

end Numeral

/-! ## Reading numerals -/

/-- Digits end where something else stands. -/
theorem Digits.append_inj {d d' : Digits} {rest rest' : List Char}
    (hrest : ∀ c ∈ rest.head?, c.isDigit = false) (hrest' : ∀ c ∈ rest'.head?, c.isDigit = false)
    (h : d.chars ++ rest = d'.chars ++ rest') : d = d' ∧ rest = rest' := by
  have hfront : ∀ (d : Digits) (rest : List Char), (∀ c ∈ rest.head?, c.isDigit = false) →
      (d.chars ++ rest).takeWhile Char.isDigit = d.chars := by
    intro d rest hrest
    rw [List.takeWhile_append_of_pos d.isDigit]
    cases rest with
    | nil => rw [List.takeWhile_nil, List.append_nil]
    | cons c rest =>
      rw [List.takeWhile_cons_of_neg (by simp [hrest c rfl]), List.append_nil]
  have hchars : d.chars = d'.chars := by
    rw [← hfront d rest hrest, h, hfront d' rest' hrest']
  refine ⟨Digits.ext hchars, ?_⟩
  rw [hchars] at h
  exact List.append_cancel_left h

private theorem Digits.head_ne_minus (d : Digits) (rest : List Char) :
    (d.chars ++ rest).head? ≠ some '-' := by
  obtain ⟨c, cs, hc⟩ := List.exists_cons_of_ne_nil d.ne_nil
  have hdigit := d.isDigit c (by simp [hc])
  rw [hc]
  rintro ⟨⟩
  cases hdigit

/-- A minus in front of digits can be told. -/
theorem signChars_append_inj {b b' : Bool} {d d' : Digits} {rest rest' : List Char}
    (h : signChars b ++ (d.chars ++ rest) = signChars b' ++ (d'.chars ++ rest')) :
    b = b' ∧ d.chars ++ rest = d'.chars ++ rest' := by
  have hd := d.head_ne_minus rest
  have hd' := d'.head_ne_minus rest'
  cases b <;> cases b'
  · exact ⟨rfl, h⟩
  · exact absurd (congrArg List.head? h) hd
  · exact absurd (congrArg List.head? h.symm) hd'
  · exact ⟨rfl, List.cons_inj_right _ |>.mp h⟩

private theorem Numeral.exponentChars_head (e : Option (Bool × Digits)) :
    ∀ c ∈ (exponentChars e).head?, c.isDigit = false := by
  cases e with
  | none => exact nofun
  | some e =>
    rintro c ⟨⟩
    rfl

private theorem Numeral.exponentChars_injective {e e' : Option (Bool × Digits)}
    (h : exponentChars e = exponentChars e') : e = e' := by
  cases e with
  | none =>
    cases e' with
    | none => rfl
    | some e' => cases h
  | some e =>
    cases e' with
    | none => cases h
    | some e' =>
      obtain ⟨b, d⟩ := e
      obtain ⟨b', d'⟩ := e'
      have htail := (List.cons.inj h).2
      rw [← List.append_nil d.chars, ← List.append_nil d'.chars] at htail
      obtain ⟨rfl, hchars⟩ := signChars_append_inj htail
      obtain rfl := Digits.ext (List.append_cancel_right hchars)
      rfl

/-- **Numerals can be read off their text.** -/
theorem Numeral.text_injective {n n' : Numeral} (h : n.text = n'.text) : n = n' := by
  have hpoint : ∀ rest : List Char, ∀ c ∈ ('.' :: rest).head?, c.isDigit = false := by
    rintro rest c ⟨⟩
    rfl
  have hchars := String.ofList_injective h
  obtain ⟨hnegative, hchars⟩ := signChars_append_inj hchars
  obtain ⟨hwhole, hchars⟩ := Digits.append_inj (hpoint _) (hpoint _) hchars
  obtain ⟨hfraction, hchars⟩ := Digits.append_inj (exponentChars_head _) (exponentChars_head _)
    (List.cons.inj hchars).2
  exact Numeral.ext hnegative hwhole hfraction (exponentChars_injective hchars)

/-! ## Significant digits -/

/-- The first digit of a number other than zero is not zero. -/
theorem head_toDigits_ne_zero {n : Nat} (h : 0 < n) : (Nat.toDigits 10 n).head? ≠ some '0' := by
  induction n using Nat.strongRecOn with
  | _ n ih =>
    rcases Nat.lt_or_ge n 10 with hlt | hge
    · have hdigit : ∀ n < 10, 0 < n → some n.digitChar ≠ some '0' := by decide
      rw [Nat.toDigits_of_lt_base hlt]
      exact hdigit n hlt h
    · rw [Nat.toDigits_of_base_le (by decide) hge,
        List.head?_append_of_ne_nil _ Nat.toDigits_ne_nil]
      exact ih (n / 10) (by omega) (by omega)

namespace Decimal

variable {d : Decimal}

private theorem significant_eq (d : Decimal) :
    d.significant = (Nat.toDigits 10 d.digits).rdropWhile (· == '0') := rfl

/-- The digits are the significant ones and zeros. -/
theorem exists_zeros (d : Decimal) :
    ∃ k, Nat.toDigits 10 d.digits = d.significant ++ zeros k := by
  have hzeros : (Nat.toDigits 10 d.digits).rtakeWhile (· == '0')
      = zeros ((Nat.toDigits 10 d.digits).rtakeWhile (· == '0')).length :=
    List.eq_replicate_iff.mpr ⟨rfl, fun c hc => by simpa using List.mem_rtakeWhile_imp hc⟩
  refine ⟨((Nat.toDigits 10 d.digits).rtakeWhile (· == '0')).length, ?_⟩
  rw [← hzeros, significant_eq, List.rdropWhile_append_rtakeWhile]

theorem isDigit_of_mem_significant {c : Char} (h : c ∈ d.significant) : c.isDigit = true := by
  have hmem : c ∈ Nat.toDigits 10 d.digits := (List.rdropWhile_prefix _ _).mem h
  exact Nat.isDigit_of_mem_toDigits (by decide) (by decide) hmem

/-- The first significant digit is not zero. -/
theorem exists_leading (h : 0 < d.digits) : ∃ c cs, d.significant = c :: cs ∧ c ≠ '0' := by
  obtain ⟨k, hk⟩ := d.exists_zeros
  have hhead := head_toDigits_ne_zero h
  rw [hk] at hhead
  cases hsig : d.significant with
  | cons c cs =>
    rw [hsig] at hhead
    refine ⟨c, cs, rfl, fun hc => hhead ?_⟩
    rw [hc]
    rfl
  | nil =>
    rw [hsig, List.nil_append] at hk hhead
    cases k with
    | zero => exact absurd hk Nat.toDigits_ne_nil
    | succ k => exact absurd rfl hhead

/-- The value by the significant digits and the place of the point. -/
theorem value_eq_significant (d : Decimal) :
    d.value = (Nat.ofDigitChars 10 d.significant 0 : ℚ)
      * 10 ^ (d.pointPosition - d.significant.length) := by
  obtain ⟨k, hk⟩ := d.exists_zeros
  have hdigits : d.digits = 10 ^ k * Nat.ofDigitChars 10 d.significant 0 := by
    rw [← @Nat.ofDigitChars_ten_toDigits d.digits, hk, Nat.ofDigitChars_append, zeros,
      Nat.ofDigitChars_replicate_zero]
  have hpoint : k + d.exponent = d.pointPosition - d.significant.length := by
    rw [pointPosition, hk, List.length_append, zeros, List.length_replicate]
    push_cast
    ring
  rw [value, hdigits, Nat.cast_mul, mul_right_comm, pow_mul_zpow hpoint, mul_comm]

end Decimal

/-! ## The value of numerals -/

/-- The digits on both sides of a point are the significant ones of a decimal, maybe among
zeros, and the point is `shift` places behind where it belongs. -/
def Decimal.ShownBy (d : Decimal) (whole fraction : Digits) (shift : Int) : Prop :=
  ∃ i j, whole.chars ++ fraction.chars = zeros i ++ (d.significant ++ zeros j)
    ∧ d.significant.length + j = d.pointPosition + shift + fraction.chars.length

/-- The digits around the point show the decimal, shifted. -/
theorem Decimal.ShownBy.value_eq {d : Decimal} {whole fraction : Digits} {shift : Int}
    (h : d.ShownBy whole fraction shift) :
    (whole.toNat + fraction.toNat / 10 ^ fraction.chars.length : ℚ) = d.value * 10 ^ shift := by
  obtain ⟨i, j, hpadded, hplaces⟩ := h
  have hall : Nat.ofDigitChars 10 (whole.chars ++ fraction.chars) 0
      = 10 ^ j * Nat.ofDigitChars 10 d.significant 0 := by
    rw [hpadded, Nat.ofDigitChars_append, Nat.ofDigitChars_append, zeros, zeros,
      Nat.ofDigitChars_replicate_zero, Nat.ofDigitChars_replicate_zero, Nat.mul_zero]
  have hsplit : Nat.ofDigitChars 10 (whole.chars ++ fraction.chars) 0
      = 10 ^ fraction.chars.length * whole.toNat + fraction.toNat := by
    rw [Nat.ofDigitChars_append, Nat.ofDigitChars_eq_ofDigitChars_zero]
    rfl
  have hsum : (10 : ℚ) ^ fraction.chars.length * whole.toNat + fraction.toNat
      = 10 ^ j * Nat.ofDigitChars 10 d.significant 0 := by
    exact_mod_cast hsplit.symm.trans hall
  have hshift : d.pointPosition - d.significant.length + shift = j - fraction.chars.length := by
    omega
  rw [d.value_eq_significant, mul_assoc, ← zpow_add₀ (by norm_num), hshift,
    zpow_sub₀ (by norm_num), zpow_natCast, zpow_natCast, ← mul_div_assoc, mul_comm, ← hsum]
  field_simp

private theorem Decimal.isDigit_of_mem_zeros {n : Nat} {c : Char} (h : c ∈ zeros n) :
    c.isDigit = true := by
  rw [List.eq_of_mem_replicate h]
  rfl

/-- The digits of an integer behind its sign. -/
theorem exists_exponent (i : Int) : ∃ (negative : Bool) (digits : Digits),
    (toString i).toList = signChars negative ++ digits.chars
      ∧ (if negative then -digits.toNat else digits.toNat : Int) = i := by
  have hdigits : ∀ n, ∃ digits : Digits, digits.chars = Nat.toDigits 10 n ∧ digits.toNat = n := by
    intro n
    refine ⟨⟨Nat.toDigits 10 n, Nat.toDigits_ne_nil, fun c hc => ?_⟩, rfl, ?_⟩
    · exact Nat.isDigit_of_mem_toDigits (by decide) (by decide) hc
    · exact Nat.ofDigitChars_ten_toDigits
  cases i with
  | ofNat n =>
    obtain ⟨digits, hchars, hn⟩ := hdigits n
    refine ⟨false, digits, ?_, ?_⟩
    · rw [hchars]
      exact String.toList_ofList
    · rw [hn]
      rfl
  | negSucc n =>
    obtain ⟨digits, hchars, hn⟩ := hdigits (n + 1)
    refine ⟨true, digits, ?_, ?_⟩
    · rw [hchars]
      have hrepr : (Nat.repr (n + 1)).toList = Nat.toDigits 10 (n + 1) := String.toList_ofList
      show ("-" ++ Nat.repr (n + 1)).toList = _
      rw [String.toList_append, hrepr]
      rfl
    · rw [hn]
      rfl

namespace Decimal

variable {d : Decimal}

private theorem significant_ne_nil (h : 0 < d.digits) : d.significant ≠ [] := by
  obtain ⟨c, cs, hsig, -⟩ := exists_leading h
  rw [hsig]
  exact List.cons_ne_nil c cs

/-- All significant digits are behind the point, maybe behind zeros. -/
theorem positional_of_nonpos (h : 0 < d.digits) (hpoint : d.pointPosition ≤ 0) :
    ∃ whole fraction : Digits, d.positional = whole.chars ++ '.' :: fraction.chars
      ∧ d.ShownBy whole fraction 0 := by
  have hne := significant_ne_nil h
  refine ⟨.zero, ⟨zeros (-d.pointPosition).toNat ++ d.significant, by simp [hne], ?_⟩,
    if_pos hpoint, (-d.pointPosition).toNat + 1, 0, ?_, ?_⟩
  · intro c hc
    exact (List.mem_append.mp hc).elim isDigit_of_mem_zeros isDigit_of_mem_significant
  · simp [zeros, List.replicate_succ]
  · simp only [zeros, List.length_append, List.length_replicate]
    omega

/-- All significant digits are in front of the point, maybe in front of zeros. -/
theorem positional_of_length_le (h : 0 < d.digits) (hpoint : 0 < d.pointPosition)
    (hlength : d.significant.length ≤ d.pointPosition.toNat) :
    ∃ whole fraction : Digits, d.positional = whole.chars ++ '.' :: fraction.chars
      ∧ d.ShownBy whole fraction 0 := by
  have hne := significant_ne_nil h
  refine ⟨⟨d.significant ++ zeros (d.pointPosition.toNat - d.significant.length), by simp [hne],
    ?_⟩, .zero, ?_, 0, d.pointPosition.toNat - d.significant.length + 1, ?_, ?_⟩
  · intro c hc
    exact (List.mem_append.mp hc).elim isDigit_of_mem_significant isDigit_of_mem_zeros
  · exact (if_neg (not_le.mpr hpoint)).trans (if_pos hlength)
  · simp [zeros, List.replicate_succ']
  · simp only [Digits.zero_chars, List.length_cons, List.length_nil]
    omega

/-- The point is between two significant digits. -/
theorem positional_of_lt_length (hpoint : 0 < d.pointPosition)
    (hlength : d.pointPosition.toNat < d.significant.length) :
    ∃ whole fraction : Digits, d.positional = whole.chars ++ '.' :: fraction.chars
      ∧ d.ShownBy whole fraction 0 := by
  refine ⟨⟨d.significant.take d.pointPosition.toNat, ?_, ?_⟩,
    ⟨d.significant.drop d.pointPosition.toNat, ?_, ?_⟩, ?_, 0, 0, ?_, ?_⟩
  · rw [← List.length_pos_iff, List.length_take]
    omega
  · exact fun c hc => isDigit_of_mem_significant (List.mem_of_mem_take hc)
  · rw [← List.length_pos_iff, List.length_drop]
    omega
  · exact fun c hc => isDigit_of_mem_significant (List.mem_of_mem_drop hc)
  · exact (if_neg (not_le.mpr hpoint)).trans (if_neg (Nat.not_le.mpr hlength))
  · simp [zeros]
  · rw [List.length_drop]
    omega

/-- **With a point only**, a decimal is written as a numeral of its value. -/
theorem positional_spells (h : 0 < d.digits) (negative : Bool) :
    ∃ n : Numeral, n.text = String.ofList (signChars negative ++ d.positional)
      ∧ n.negative = negative ∧ n.exponent = none ∧ n.magnitude = d.value := by
  have hsides : ∃ whole fraction : Digits, d.positional = whole.chars ++ '.' :: fraction.chars
      ∧ d.ShownBy whole fraction 0 := by
    rcases le_or_gt d.pointPosition 0 with hpoint | hpoint
    · exact positional_of_nonpos h hpoint
    · rcases le_or_gt d.significant.length d.pointPosition.toNat with hlength | hlength
      · exact positional_of_length_le h hpoint hlength
      · exact positional_of_lt_length hpoint hlength
  obtain ⟨whole, fraction, htext, hshown⟩ := hsides
  refine ⟨⟨negative, whole, fraction, none⟩, ?_, rfl, rfl, ?_⟩
  · rw [Numeral.text, Numeral.exponentChars, List.append_nil, htext]
  · rw [Numeral.magnitude, hshown.value_eq, zpow_zero, mul_one]
    exact mul_one _

/-- The decimal written with one digit in front of the point, at least one behind it, and an
exponent. -/
def scientific (d : Decimal) : List Char :=
  let digits := d.significant
  let fraction := if digits.length ≤ 1 then ['0'] else digits.drop 1
  digits.take 1 ++ '.' :: fraction ++ 'E' :: (toString (d.pointPosition - 1)).toList

/-- The digits around the point in front of an exponent. -/
theorem scientific_sides (h : 0 < d.digits) : ∃ whole fraction : Digits,
    d.scientific = whole.chars ++ '.' :: (fraction.chars
        ++ 'E' :: (toString (d.pointPosition - 1)).toList)
      ∧ (∃ c, whole.chars = [c] ∧ c ≠ '0')
      ∧ d.ShownBy whole fraction (1 - d.pointPosition) := by
  obtain ⟨c, cs, hsig, hc⟩ := exists_leading h
  have hdigit : ∀ x ∈ c :: cs, x.isDigit = true := hsig ▸ fun _ => isDigit_of_mem_significant
  obtain ⟨hfirst, hrest⟩ := List.forall_mem_cons.mp hdigit
  cases cs with
  | nil =>
    refine ⟨⟨[c], by simp, by simpa using hfirst⟩, .zero, ?_, ⟨c, rfl, hc⟩, 0, 1, ?_, ?_⟩
    · rw [scientific, hsig]
      rfl
    · rw [hsig]
      rfl
    · rw [hsig]
      simp only [Digits.zero_chars, List.length_cons, List.length_nil]
      omega
  | cons x xs =>
    refine ⟨⟨[c], by simp, by simpa using hfirst⟩, ⟨x :: xs, by simp, hrest⟩, ?_,
      ⟨c, rfl, hc⟩, 0, 0, ?_, ?_⟩
    · rw [scientific, hsig]
      simp
    · rw [hsig]
      simp [zeros]
    · rw [hsig]
      simp only [List.length_cons]
      omega

/-- **With an exponent**, a decimal is written as a numeral of its value with one digit other
than zero in front of the point. -/
theorem scientific_spells (h : 0 < d.digits) (negative : Bool) :
    ∃ n : Numeral, n.text = String.ofList (signChars negative ++ d.scientific)
      ∧ n.negative = negative ∧ n.exponent ≠ none
      ∧ (∃ c, n.whole.chars = [c] ∧ c ≠ '0') ∧ n.magnitude = d.value := by
  obtain ⟨whole, fraction, htext, hwhole, hshown⟩ := scientific_sides h
  obtain ⟨sign, digits, hchars, hexponent⟩ := exists_exponent (d.pointPosition - 1)
  refine ⟨⟨negative, whole, fraction, some (sign, digits)⟩, ?_, rfl, nofun, hwhole, ?_⟩
  · rw [Numeral.text, Numeral.exponentChars, ← hchars, htext]
  · have hscale : Numeral.scale ⟨negative, whole, fraction, some (sign, digits)⟩
        = d.pointPosition - 1 := hexponent
    rw [Numeral.magnitude, hshown.value_eq, hscale, mul_assoc, ← zpow_add₀ (by norm_num)]
    simp

end Decimal

end Classdesk
