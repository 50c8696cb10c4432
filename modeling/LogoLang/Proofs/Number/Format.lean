import LogoLang.Proofs.Number.Rounding
import Mathlib

set_option autoImplicit false

/-! # Rounding to a binary format

A number of a format is written in one way as a significand and an exponent
(`BinaryFormat.Canonical`). Rounding has such numbers as results (`BinaryFormat.canonical_of_round`),
and leaves them as they are (`BinaryFormat.round_of_canonical`). The argument is on the value of a
quotient as a rational number, which scaling multiplies by a power of two. -/

namespace LogoLang

/-! ## Values of quotients -/

theorem scaleQuotient_snd_pos {base den : Nat} (hbase : 0 < base) (num : Nat) (hden : 0 < den)
    (exponent : Int) : 0 < (scaleQuotient base num den exponent).2 :=
  Nat.mul_pos hden (Nat.pow_pos hbase)

/-- Scaling a quotient multiplies its value. -/
theorem scaleQuotient_value (base num den : Nat) (exponent : Int) :
    ((scaleQuotient base num den exponent).1 : ℚ) / (scaleQuotient base num den exponent).2 =
      num / den * (base : ℚ) ^ exponent := by
  obtain ⟨k, rfl | rfl⟩ := Int.eq_nat_or_neg exponent
  · simp [scaleQuotient, div_mul_eq_mul_div]
  · simp [scaleQuotient, ← div_eq_mul_inv, div_div]

theorem div_lt_iff_nat {n d b : Nat} (hd : 0 < d) : (n : ℚ) / d < b ↔ n < b * d := by
  rw [div_lt_iff₀ (by exact_mod_cast hd)]
  exact_mod_cast Iff.rfl

theorem le_div_iff_nat {n d a : Nat} (hd : 0 < d) : (a : ℚ) ≤ n / d ↔ a * d ≤ n := by
  rw [le_div_iff₀ (by exact_mod_cast hd)]
  exact_mod_cast Iff.rfl

/-- The value of a quotient lies between the powers of the base on either side of its magnitude. -/
theorem floorLog_bounds {base num den above below : Nat} (hbase : 1 < base) (hden : 0 < den)
    (hnumLow : base ^ above ≤ num) (hnumHigh : num < base ^ (above + 1))
    (hdenLow : base ^ below ≤ den) (hdenHigh : den < base ^ (below + 1)) :
    (base : ℚ) ^ floorLog base num den (above - below) ≤ num / den ∧
      (num / den : ℚ) < (base : ℚ) ^ (floorLog base num den (above - below) + 1) := by
  have hden' : (0 : ℚ) < den := by exact_mod_cast hden
  have hbase' : (0 : ℚ) < base := by exact_mod_cast Nat.lt_trans Nat.zero_lt_one hbase
  have hnumLow' : (base : ℚ) ^ above ≤ num := by exact_mod_cast hnumLow
  have hnumHigh' : (num : ℚ) < (base : ℚ) ^ (above + 1) := by exact_mod_cast hnumHigh
  have hdenLow' : (base : ℚ) ^ below ≤ den := by exact_mod_cast hdenLow
  have hdenHigh' : (den : ℚ) < (base : ℚ) ^ (below + 1) := by exact_mod_cast hdenHigh
  obtain ⟨upper, hupper⟩ : ∃ upper : Int, (above : Int) - below = upper := ⟨_, rfl⟩
  have hhigh : (num / den : ℚ) < (base : ℚ) ^ (upper + 1) := by
    rw [div_lt_iff₀ hden']
    calc (num : ℚ) < (base : ℚ) ^ (above + 1) := hnumHigh'
      _ = (base : ℚ) ^ (upper + 1) * (base : ℚ) ^ below := by
        rw [← zpow_natCast, ← zpow_natCast, ← zpow_add₀ hbase'.ne']
        congr 1
        push_cast
        omega
      _ ≤ (base : ℚ) ^ (upper + 1) * den := by gcongr
  have hlow : (base : ℚ) ^ (upper - 1) ≤ num / den := by
    rw [le_div_iff₀ hden']
    calc (base : ℚ) ^ (upper - 1) * den
        ≤ (base : ℚ) ^ (upper - 1) * (base : ℚ) ^ (below + 1) := by gcongr
      _ = (base : ℚ) ^ above := by
        rw [← zpow_natCast, ← zpow_natCast, ← zpow_add₀ hbase'.ne']
        congr 1
        push_cast
        omega
      _ ≤ num := hnumLow'
  have hscaled := scaleQuotient_value base num den (-upper)
  have hsmaller : (scaleQuotient base num den (-upper)).1 <
      (scaleQuotient base num den (-upper)).2 ↔ (num / den : ℚ) < (base : ℚ) ^ upper := by
    have hpos := scaleQuotient_snd_pos (Nat.lt_trans Nat.zero_lt_one hbase) num hden (-upper)
    rw [← Nat.one_mul (scaleQuotient base num den (-upper)).2, ← div_lt_iff_nat hpos, hscaled,
      zpow_neg, ← div_eq_mul_inv, Nat.cast_one, div_lt_one (by positivity)]
  rw [hupper, floorLog]
  simp only [hsmaller]
  split
  · next hlt => exact ⟨hlow, by rwa [sub_add_cancel]⟩
  · next hge => exact ⟨not_lt.1 hge, hhigh⟩

/-- The exponent of the greatest power of two that is at most a quotient. -/
def binaryMagnitude (num den : Nat) : Int := floorLog 2 num den ((num.log2 : Int) - den.log2)

theorem binaryMagnitude_bounds {num den : Nat} (hnum : num ≠ 0) (hden : 0 < den) :
    (2 : ℚ) ^ binaryMagnitude num den ≤ num / den ∧
      (num / den : ℚ) < 2 ^ (binaryMagnitude num den + 1) :=
  floorLog_bounds Nat.one_lt_two hden (Nat.log2_self_le hnum) Nat.lt_log2_self
    (Nat.log2_self_le hden.ne') Nat.lt_log2_self

/-! ## Rounding to a natural number -/

theorem le_roundHalfEven {num den low : Nat} (hden : 0 < den) (h : low * den ≤ num) :
    low ≤ roundHalfEven num den := by
  have hquotient : low ≤ num / den := (Nat.le_div_iff_mul_le hden).2 h
  unfold roundHalfEven
  simp only
  split <;> omega

theorem roundHalfEven_le {num den high : Nat} (hden : 0 < den) (h : num ≤ high * den) :
    roundHalfEven num den ≤ high := by
  have hquotient : num / den ≤ high := Nat.div_le_of_le_mul (by rwa [Nat.mul_comm])
  unfold roundHalfEven
  simp only
  split
  · exact hquotient
  · next hup =>
    rcases Nat.lt_or_eq_of_le hquotient with hlt | heq
    · exact hlt
    · -- nothing is left of a quotient that is already as high as it can be
      have hdivmod := Nat.div_add_mod num den
      rw [heq, Nat.mul_comm] at hdivmod
      exact absurd (Or.inl (by omega)) hup

/-! ## Numbers of a format -/

/-- The significand and exponent with which a number of a format is written: the significand has its
    leading digit, unless the exponent is the least one. -/
structure BinaryFormat.Canonical (format : BinaryFormat) (significand : Nat) (exponent : Int) :
    Prop where
  lt : significand < 2 ^ format.precision
  min_le : format.minExponent ≤ exponent
  le_max : exponent ≤ format.maxExponent
  leading : 2 ^ (format.precision - 1) ≤ significand ∨ exponent = format.minExponent

/-- The exponent with which a quotient is rounded. -/
def BinaryFormat.exponentOf (format : BinaryFormat) (num den : Nat) : Int :=
  max (binaryMagnitude num den + 1 - format.precision) format.minExponent

/-- The significand to which a quotient is rounded with this exponent. -/
def BinaryFormat.significandOf (format : BinaryFormat) (num den : Nat) : Nat :=
  let scaled := scaleQuotient 2 num den (-format.exponentOf num den)
  roundHalfEven scaled.1 scaled.2

section Rounding

variable {format : BinaryFormat} {num den significand : Nat} {exponent : Int}

theorem BinaryFormat.round_eq (hnum : num ≠ 0) : format.round num den =
    if format.significandOf num den = 2 ^ format.precision then
      if format.exponentOf num den + 1 ≤ format.maxExponent then
        some (2 ^ (format.precision - 1), format.exponentOf num den + 1)
      else none
    else if format.exponentOf num den ≤ format.maxExponent then
      some (format.significandOf num den, format.exponentOf num den)
    else none := by
  unfold BinaryFormat.round BinaryFormat.significandOf BinaryFormat.exponentOf binaryMagnitude
  rw [if_neg hnum]
  simp only [Nat.pow_eq]
  split <;> rfl

/-- The value of a quotient is within the precision of the exponent with which it is rounded, and has
    the leading digit there unless this is the least exponent. -/
theorem BinaryFormat.significandOf_bounds (hprecision : 0 < format.precision) (hnum : num ≠ 0)
    (hden : 0 < den) : format.significandOf num den ≤ 2 ^ format.precision ∧
      (2 ^ (format.precision - 1) ≤ format.significandOf num den ∨
        format.exponentOf num den = format.minExponent) := by
  obtain ⟨hlow, hhigh⟩ := binaryMagnitude_bounds hnum hden
  have hpos := scaleQuotient_snd_pos Nat.two_pos num hden (-format.exponentOf num den)
  have hvalue := scaleQuotient_value 2 num den (-format.exponentOf num den)
  obtain ⟨k, hk⟩ : ∃ k, binaryMagnitude num den = k := ⟨_, rfl⟩
  have hexponent : format.exponentOf num den =
      max (k + 1 - format.precision) format.minExponent := by rw [BinaryFormat.exponentOf, hk]
  rw [hk] at hlow hhigh
  refine ⟨roundHalfEven_le hpos (Nat.le_of_lt ((div_lt_iff_nat hpos).1 ?_)), ?_⟩
  · rw [hvalue]
    calc (num / den : ℚ) * 2 ^ (-format.exponentOf num den)
        < 2 ^ (k + 1) * 2 ^ (-format.exponentOf num den) := by gcongr
      _ = 2 ^ (k + 1 - format.exponentOf num den) := by rw [← zpow_add₀ two_ne_zero, sub_eq_add_neg]
      _ ≤ 2 ^ (format.precision : Int) := zpow_le_zpow_right₀ one_le_two (by omega)
      _ = ((2 ^ format.precision : Nat) : ℚ) := by rw [zpow_natCast]; norm_cast
  · by_cases hmin : format.exponentOf num den = format.minExponent
    · exact Or.inr hmin
    · refine Or.inl (le_roundHalfEven hpos ((le_div_iff_nat hpos).1 ?_))
      rw [hvalue]
      calc ((2 ^ (format.precision - 1) : Nat) : ℚ)
          = 2 ^ ((format.precision - 1 : Nat) : Int) := by rw [zpow_natCast]; norm_cast
        _ = 2 ^ (k + -format.exponentOf num den) := by congr 1; omega
        _ = 2 ^ k * 2 ^ (-format.exponentOf num den) := zpow_add₀ two_ne_zero _ _
        _ ≤ num / den * 2 ^ (-format.exponentOf num den) := by gcongr

/-- **Rounding ends with a number of the format.** -/
theorem BinaryFormat.canonical_of_round (hprecision : 0 < format.precision)
    (hrange : format.minExponent ≤ format.maxExponent) (hden : 0 < den)
    (h : format.round num den = some (significand, exponent)) :
    format.Canonical significand exponent := by
  by_cases hnum : num = 0
  · rw [BinaryFormat.round, if_pos hnum] at h
    cases h
    exact ⟨Nat.two_pow_pos _, le_refl _, hrange, Or.inr rfl⟩
  · obtain ⟨hle, hleading⟩ := BinaryFormat.significandOf_bounds hprecision hnum hden
    have hmin : format.minExponent ≤ format.exponentOf num den := le_max_right _ _
    rw [BinaryFormat.round_eq hnum] at h
    split at h
    · split at h
      · next hmax =>
        cases h
        exact ⟨Nat.pow_lt_pow_right Nat.one_lt_two (by omega), by omega, hmax, Or.inl (le_refl _)⟩
      · exact absurd h (by simp)
    · next hne =>
      split at h
      · next hmax =>
        cases h
        exact ⟨Nat.lt_of_le_of_ne hle hne, hmin, hmax, hleading⟩
      · exact absurd h (by simp)

/-- The exponent of a number of the format is the one with which its value is rounded. -/
theorem BinaryFormat.Canonical.exponentOf_eq (h : format.Canonical significand exponent)
    (hprecision : 0 < format.precision) (hnum : num ≠ 0) (hden : 0 < den)
    (hvalue : (num / den : ℚ) = significand * 2 ^ exponent) :
    format.exponentOf num den = exponent := by
  obtain ⟨hlow, hhigh⟩ := binaryMagnitude_bounds hnum hden
  obtain ⟨k, hk⟩ : ∃ k, binaryMagnitude num den = k := ⟨_, rfl⟩
  have hlt : (significand : ℚ) < 2 ^ (format.precision : Int) := by
    rw [zpow_natCast]
    exact_mod_cast h.lt
  have hmin := h.min_le
  rw [hk, hvalue] at hlow hhigh
  -- the magnitude is below that of the least number with one digit more
  have hbelow : k < format.precision + exponent := by
    rw [← zpow_lt_zpow_iff_right₀ (one_lt_two : (1 : ℚ) < 2), zpow_add₀ two_ne_zero]
    exact lt_of_le_of_lt hlow (by gcongr)
  rw [BinaryFormat.exponentOf, hk]
  rcases h.leading with hleading | heq
  · have hleading' : (2 : ℚ) ^ ((format.precision - 1 : Nat) : Int) ≤ significand := by
      rw [zpow_natCast]
      exact_mod_cast hleading
    have habove : ((format.precision - 1 : Nat) : Int) + exponent < k + 1 := by
      rw [← zpow_lt_zpow_iff_right₀ (one_lt_two : (1 : ℚ) < 2), zpow_add₀ two_ne_zero]
      exact lt_of_le_of_lt (by gcongr) hhigh
    omega
  · omega

/-- **Rounding leaves the numbers of the format as they are.** -/
theorem BinaryFormat.round_of_canonical (h : format.Canonical significand exponent)
    (hprecision : 0 < format.precision) (hden : 0 < den)
    (hvalue : (num / den : ℚ) = significand * 2 ^ exponent) :
    format.round num den = some (significand, exponent) := by
  have hden' : (den : ℚ) ≠ 0 := by exact_mod_cast hden.ne'
  by_cases hnum : num = 0
  · have hzero : significand = 0 := by
      rw [hnum, Nat.cast_zero, zero_div, eq_comm, mul_eq_zero] at hvalue
      exact_mod_cast hvalue.resolve_right (zpow_ne_zero _ two_ne_zero)
    rcases h.leading with hleading | heq
    · have hpos := Nat.two_pow_pos (format.precision - 1)
      omega
    · rw [BinaryFormat.round, if_pos hnum, hzero, heq]
  · have hexponent := h.exponentOf_eq hprecision hnum hden hvalue
    have hscaled := scaleQuotient_value 2 num den (-exponent)
    have hpos := scaleQuotient_snd_pos Nat.two_pos num hden (-exponent)
    have hexact : (scaleQuotient 2 num den (-exponent)).1 =
        significand * (scaleQuotient 2 num den (-exponent)).2 := by
      rw [hvalue, Nat.cast_ofNat, mul_assoc, ← zpow_add₀ two_ne_zero, add_neg_cancel, zpow_zero,
        mul_one, div_eq_iff (by exact_mod_cast hpos.ne')] at hscaled
      exact_mod_cast hscaled
    have hsignificand : format.significandOf num den = significand := by
      rw [BinaryFormat.significandOf, hexponent]
      simp only [hexact]
      exact roundHalfEven_mul _ hpos
    rw [BinaryFormat.round_eq hnum, hsignificand, hexponent, if_neg h.lt.ne, if_pos h.le_max]

/-- A number with few enough digits is a number of the format, with its leading digit, once it is
    shifted, provided that its exponent is far enough from the least one. -/
theorem BinaryFormat.exists_canonical (format : BinaryFormat) (hne : significand ≠ 0)
    (hlt : significand < 2 ^ format.precision)
    (hmin : format.minExponent + format.precision ≤ exponent + 1)
    (hmax : exponent ≤ format.maxExponent) :
    ∃ significand' exponent', format.Canonical significand' exponent' ∧
      2 ^ (format.precision - 1) ≤ significand' ∧
      (significand' * 2 ^ exponent' : ℚ) = significand * 2 ^ exponent := by
  have hlog : significand.log2 < format.precision := (Nat.log2_lt hne).2 hlt
  obtain ⟨shift, hshift⟩ : ∃ shift, significand.log2 + shift + 1 = format.precision :=
    ⟨format.precision - significand.log2 - 1, by omega⟩
  have hlow : 2 ^ (format.precision - 1) ≤ significand * 2 ^ shift := by
    rw [show format.precision - 1 = significand.log2 + shift by omega, pow_add]
    exact Nat.mul_le_mul_right _ (Nat.log2_self_le hne)
  have hhigh : significand * 2 ^ shift < 2 ^ format.precision := by
    rw [show format.precision = significand.log2 + 1 + shift by omega, pow_add]
    exact Nat.mul_lt_mul_of_pos_right Nat.lt_log2_self (Nat.two_pow_pos shift)
  refine ⟨significand * 2 ^ shift, exponent - shift, ⟨hhigh, by omega, by omega, Or.inl hlow⟩, hlow, ?_⟩
  rw [Nat.cast_mul, Nat.cast_pow, Nat.cast_ofNat, mul_assoc, ← zpow_natCast, ← zpow_add₀ two_ne_zero,
    add_sub_cancel]

end Rounding

end LogoLang
