import LogoLang.Proofs.Number.Format

set_option autoImplicit false

/-! # Rounding to the nearest number

A quotient is rounded by its value alone (`BinaryFormat.round_congr`). What is near enough to a number
of the format is rounded to it (`BinaryFormat.round_of_near`), also below a power of two, where the
numbers of the format lie closer to each other, and a quotient that is large enough for the full
precision is rounded to a number that is near it (`BinaryFormat.abs_round_sub_le`). -/

namespace LogoLang

/-! ## The nearest natural number -/

theorem abs_roundHalfEven_sub_le (num : Nat) {den : Nat} (hden : 0 < den) :
    |(roundHalfEven num den : ℚ) - num / den| ≤ 1 / 2 := by
  have hden' : (0 : ℚ) < den := by exact_mod_cast hden
  have hdivmod : (num : ℚ) = den * (num / den : Nat) + (num % den : Nat) := by
    exact_mod_cast (Nat.div_add_mod num den).symm
  have hvalue : (num / den : ℚ) = (num / den : Nat) + (num % den : Nat) / den := by
    rw [div_eq_iff hden'.ne', add_mul, div_mul_cancel₀ _ hden'.ne', mul_comm]
    exact hdivmod
  rw [hvalue]
  unfold roundHalfEven
  simp only
  split
  · next hdown =>
    have hhalf : ((num % den : Nat) : ℚ) / den ≤ 1 / 2 := by
      rw [div_le_div_iff₀ hden' two_pos]
      exact_mod_cast (by omega : num % den * 2 ≤ 1 * den)
    rw [sub_add_cancel_left, abs_neg, abs_of_nonneg (by positivity)]
    exact hhalf
  · next hup =>
    have hhalf : 1 / 2 ≤ ((num % den : Nat) : ℚ) / den := by
      rw [div_le_div_iff₀ two_pos hden']
      exact_mod_cast (by omega : 1 * den ≤ num % den * 2)
    have hone : ((num % den : Nat) : ℚ) / den ≤ 1 := by
      rw [div_le_one hden']
      exact_mod_cast (Nat.mod_lt num hden).le
    rw [Nat.cast_add, Nat.cast_one, add_sub_add_left_eq_sub, abs_of_nonneg (by linarith)]
    linarith

/-- What is less than a half away from a natural number is rounded to it. -/
theorem roundHalfEven_of_near {num den n : Nat} (hden : 0 < den)
    (h : |(num / den : ℚ) - n| < 1 / 2) : roundHalfEven num den = n := by
  have hround := abs_roundHalfEven_sub_le num hden
  have hless : |(roundHalfEven num den : ℚ) - n| < 1 :=
    calc |(roundHalfEven num den : ℚ) - n|
        ≤ |(roundHalfEven num den : ℚ) - num / den| + |(num / den : ℚ) - n| := abs_sub_le _ _ _
      _ < 1 := by linarith
  have hint : |(roundHalfEven num den : Int) - n| < 1 := by exact_mod_cast hless
  exact_mod_cast sub_eq_zero.1 (Int.abs_lt_one_iff.1 hint)

theorem roundHalfEven_mul_right (num den : Nat) {k : Nat} (hk : 0 < k) :
    roundHalfEven (num * k) (den * k) = roundHalfEven num den := by
  have hless : 2 * (num % den * k) < den * k ↔ 2 * (num % den) < den := by
    rw [← Nat.mul_assoc]
    exact Nat.mul_lt_mul_right hk
  have heq : 2 * (num % den * k) = den * k ↔ 2 * (num % den) = den := by
    rw [← Nat.mul_assoc]
    exact Nat.mul_left_inj hk.ne'
  simp only [roundHalfEven, Nat.mul_div_mul_right _ _ hk, Nat.mul_mod_mul_right, hless, heq]

/-- A quotient is rounded by its value. -/
theorem roundHalfEven_congr {num den num' den' : Nat} (hden : 0 < den) (hden' : 0 < den')
    (h : (num / den : ℚ) = num' / den') : roundHalfEven num den = roundHalfEven num' den' := by
  have hcross : num * den' = num' * den := by
    rw [div_eq_div_iff (by exact_mod_cast hden.ne') (by exact_mod_cast hden'.ne')] at h
    exact_mod_cast h
  rw [← roundHalfEven_mul_right num den hden', hcross, Nat.mul_comm den den',
    roundHalfEven_mul_right num' den' hden]

/-! ## Rounding by value -/

/-- There is only one magnitude to a base. -/
theorem eq_of_zpow_bounds {base v : ℚ} {k k' : Int} (hbase : 1 < base) (hlow : base ^ k ≤ v)
    (hhigh : v < base ^ (k + 1)) (hlow' : base ^ k' ≤ v) (hhigh' : v < base ^ (k' + 1)) : k = k' := by
  have hlt : k < k' + 1 := (zpow_lt_zpow_iff_right₀ hbase).1 (lt_of_le_of_lt hlow hhigh')
  have hlt' : k' < k + 1 := (zpow_lt_zpow_iff_right₀ hbase).1 (lt_of_le_of_lt hlow' hhigh)
  omega

theorem quotient_eq_zero_iff {num den : Nat} (hden : 0 < den) : (num / den : ℚ) = 0 ↔ num = 0 := by
  rw [div_eq_zero_iff, Nat.cast_eq_zero, Nat.cast_eq_zero]
  omega

section Formats

variable {format : BinaryFormat} {num den num' den' significand : Nat} {exponent : Int}

/-- **A quotient is rounded by its value.** -/
theorem BinaryFormat.round_congr (hden : 0 < den) (hden' : 0 < den')
    (h : (num / den : ℚ) = num' / den') : format.round num den = format.round num' den' := by
  have hzero : num = 0 ↔ num' = 0 := by
    rw [← quotient_eq_zero_iff hden, ← quotient_eq_zero_iff hden', h]
  by_cases hnum : num = 0
  · rw [BinaryFormat.round, BinaryFormat.round, if_pos hnum, if_pos (hzero.1 hnum)]
  · have hnum' := mt hzero.2 hnum
    obtain ⟨hlow, hhigh⟩ := binaryMagnitude_bounds hnum hden
    obtain ⟨hlow', hhigh'⟩ := binaryMagnitude_bounds hnum' hden'
    rw [← h] at hlow' hhigh'
    have hexponent : format.exponentOf num den = format.exponentOf num' den' := by
      rw [BinaryFormat.exponentOf, BinaryFormat.exponentOf,
        eq_of_zpow_bounds one_lt_two hlow hhigh hlow' hhigh']
    have hsignificand : format.significandOf num den = format.significandOf num' den' := by
      rw [BinaryFormat.significandOf, BinaryFormat.significandOf, hexponent]
      refine roundHalfEven_congr (scaleQuotient_snd_pos Nat.two_pos _ hden _)
        (scaleQuotient_snd_pos Nat.two_pos _ hden' _) ?_
      rw [scaleQuotient_value, scaleQuotient_value, h]
    rw [BinaryFormat.round_eq hnum, BinaryFormat.round_eq hnum', hexponent, hsignificand]

/-! ## What is rounded to a number -/

/-- What a number of `precision` digits may be off, in relation to its value. -/
abbrev tolerance (precision : Nat) : ℚ := 2 ^ (-(precision + 1 : Int))

theorem two_pow_mul_tolerance (precision : Nat) :
    (2 : ℚ) ^ precision * tolerance precision = 1 / 2 := by
  rw [← zpow_natCast, ← zpow_add₀ two_ne_zero, ← sub_eq_add_neg, sub_add_cancel_left, zpow_neg_one,
    one_div]

theorem tolerance_le_half (precision : Nat) : tolerance precision ≤ 1 / 2 := by
  rw [← two_pow_mul_tolerance precision]
  exact le_mul_of_one_le_left (by positivity) (one_le_pow₀ one_le_two)

/-- The significand of a quotient that is near a number of the format: that of the number, brought to
    the exponent with which the quotient is rounded. -/
theorem BinaryFormat.Canonical.significandOf_of_near (h : format.Canonical significand exponent)
    (hden : 0 < den) (hnum : num ≠ 0)
    (hnear : |(num / den : ℚ) - significand * 2 ^ exponent| <
      significand * 2 ^ exponent * tolerance format.precision) :
    ∃ shift : Nat, format.exponentOf num den + shift = exponent ∧
      significand * 2 ^ shift ≤ 2 ^ format.precision ∧
      format.significandOf num den = significand * 2 ^ shift := by
  obtain ⟨hlow, hhigh⟩ := binaryMagnitude_bounds hnum hden
  obtain ⟨hbelow, habove⟩ := abs_lt.1 hnear
  have hhalf := two_pow_mul_tolerance format.precision
  have hsmall := tolerance_le_half format.precision
  have hpos : 0 < tolerance format.precision := by positivity
  have hlt : (significand : ℚ) + 1 ≤ 2 ^ format.precision := by exact_mod_cast h.lt
  -- the quotient is below the power of two that ends the octave of the number
  have hoctave : (num / den : ℚ) < 2 ^ (format.precision + exponent : Int) := by
    have hscaled : (significand : ℚ) + significand * tolerance format.precision <
        2 ^ format.precision := by nlinarith
    rw [zpow_add₀ two_ne_zero, zpow_natCast]
    calc (num / den : ℚ)
        < (significand + significand * tolerance format.precision) * 2 ^ exponent := by linarith
      _ < 2 ^ format.precision * 2 ^ exponent := by gcongr
  have hmagnitude := (zpow_lt_zpow_iff_right₀ one_lt_two).1 (lt_of_le_of_lt hlow hoctave)
  have hmin := h.min_le
  have hle : format.exponentOf num den ≤ exponent := by
    rw [BinaryFormat.exponentOf]
    omega
  obtain ⟨shift, hshift⟩ := Int.le.dest hle
  have hvalue : (significand * 2 ^ exponent : ℚ) =
      (significand * 2 ^ shift : Nat) * 2 ^ format.exponentOf num den := by
    rw [← hshift, zpow_add₀ two_ne_zero, zpow_natCast]
    push_cast
    ring
  obtain ⟨unit, hunit⟩ : ∃ unit : ℚ, 2 ^ format.exponentOf num den = unit := ⟨_, rfl⟩
  have hunitPos : 0 < unit := hunit ▸ zpow_pos two_pos _
  have hend : (num / den : ℚ) < 2 ^ format.precision * unit := by
    rw [← hunit, ← zpow_natCast, ← zpow_add₀ two_ne_zero]
    refine lt_of_lt_of_le hhigh (zpow_le_zpow_right₀ one_le_two ?_)
    rw [BinaryFormat.exponentOf]
    omega
  rw [hvalue, hunit] at hbelow habove
  have hbound : significand * 2 ^ shift ≤ 2 ^ format.precision := by
    by_contra hgt
    have hgt' : (2 : ℚ) ^ format.precision + 1 ≤ (significand * 2 ^ shift : Nat) := by
      exact_mod_cast Nat.lt_of_not_le hgt
    have hless : ((significand * 2 ^ shift : Nat) : ℚ) * (1 - tolerance format.precision) <
        2 ^ format.precision := by
      refine lt_of_mul_lt_mul_right ?_ hunitPos.le
      linarith
    nlinarith
  refine ⟨shift, hshift, hbound, ?_⟩
  have hbound' : ((significand * 2 ^ shift : Nat) : ℚ) ≤ 2 ^ format.precision := by
    exact_mod_cast hbound
  have hoff : ((significand * 2 ^ shift : Nat) : ℚ) * unit * tolerance format.precision ≤
      1 / 2 * unit := by
    rw [← hhalf, mul_right_comm]
    gcongr
  rw [BinaryFormat.significandOf]
  refine roundHalfEven_of_near (scaleQuotient_snd_pos Nat.two_pos num hden _) ?_
  rw [scaleQuotient_value, Nat.cast_ofNat, zpow_neg, hunit, ← div_eq_mul_inv, abs_lt, lt_sub_iff_add_lt,
    sub_lt_iff_lt_add, lt_div_iff₀ hunitPos, div_lt_iff₀ hunitPos]
  constructor <;> linarith

/-- **What is near enough to a number of the format is rounded to it.** -/
theorem BinaryFormat.round_of_near (h : format.Canonical significand exponent)
    (hprecision : 0 < format.precision) (hden : 0 < den)
    (hnear : |(num / den : ℚ) - significand * 2 ^ exponent| <
      significand * 2 ^ exponent * tolerance format.precision) :
    format.round num den = some (significand, exponent) := by
  have hnum : num ≠ 0 := by
    rintro rfl
    have hsmall := tolerance_le_half format.precision
    have hnonneg : (0 : ℚ) ≤ significand * 2 ^ exponent := by positivity
    rw [Nat.cast_zero, zero_div, zero_sub, abs_neg, abs_of_nonneg hnonneg] at hnear
    nlinarith
  obtain ⟨shift, hshift, hbound, hsignificand⟩ := h.significandOf_of_near hden hnum hnear
  have hlt := h.lt
  have hmin : format.minExponent ≤ format.exponentOf num den := le_max_right _ _
  rw [BinaryFormat.round_eq hnum, hsignificand]
  cases shift with
  | zero =>
    rw [pow_zero, Nat.mul_one, if_neg hlt.ne, show format.exponentOf num den = exponent by omega,
      if_pos h.le_max]
  | succ shift =>
    -- the quotient is below the number, which is a power of two, and is rounded up to it
    have hleading := h.leading.resolve_right (by omega)
    have hdouble : 2 ^ format.precision = 2 ^ (format.precision - 1) * 2 := by
      rw [← pow_succ, Nat.sub_add_cancel hprecision]
    rw [pow_succ, ← Nat.mul_assoc, hdouble] at hbound
    have hhalf := Nat.le_of_mul_le_mul_right hbound Nat.two_pos
    have hfirst : shift = 0 := by
      by_contra hne
      have htwo : 2 ≤ 2 ^ shift := Nat.le_self_pow hne 2
      have hmore := Nat.mul_le_mul hleading htwo
      have hpos := Nat.two_pow_pos (format.precision - 1)
      omega
    subst hfirst
    rw [pow_zero, Nat.mul_one] at hhalf
    have heq := Nat.le_antisymm hhalf hleading
    have hstep : format.exponentOf num den + 1 = exponent := by omega
    rw [if_pos (by rw [heq, hdouble]; rfl), hstep, if_pos h.le_max, heq]

/-! ## What a quotient is rounded to -/

/-- Every quotient below the largest power of two of the format is rounded to a number. -/
theorem BinaryFormat.exists_round (hnum : num ≠ 0) (hden : 0 < den)
    (hrange : format.minExponent < format.maxExponent)
    (hhigh : (num / den : ℚ) < 2 ^ (format.maxExponent + format.precision - 1)) :
    ∃ significand exponent, format.round num den = some (significand, exponent) := by
  obtain ⟨hlow, _⟩ := binaryMagnitude_bounds hnum hden
  have hmagnitude : binaryMagnitude num den < format.maxExponent + format.precision - 1 :=
    (zpow_lt_zpow_iff_right₀ one_lt_two).1 (lt_of_le_of_lt hlow hhigh)
  have hexponent : format.exponentOf num den + 1 ≤ format.maxExponent := by
    rw [BinaryFormat.exponentOf]
    omega
  have hexponent' : format.exponentOf num den ≤ format.maxExponent := by omega
  rw [BinaryFormat.round_eq hnum, if_pos hexponent, if_pos hexponent']
  split <;> exact ⟨_, _, rfl⟩

/-- **A quotient that is large enough for the full precision is rounded to a number near it.** -/
theorem BinaryFormat.abs_round_sub_le (hprecision : 0 < format.precision) (hnum : num ≠ 0)
    (hden : 0 < den) (h : format.round num den = some (significand, exponent))
    (hlow : (2 : ℚ) ^ (format.minExponent + format.precision - 1) ≤ num / den) :
    |(significand * 2 ^ exponent : ℚ) - num / den| ≤ num / den * 2 ^ (-(format.precision : Int)) := by
  obtain ⟨hbelow, habove⟩ := binaryMagnitude_bounds hnum hden
  have hmagnitude := (zpow_lt_zpow_iff_right₀ one_lt_two).1 (lt_of_le_of_lt hlow habove)
  have hexponent : format.exponentOf num den = binaryMagnitude num den + 1 - format.precision := by
    rw [BinaryFormat.exponentOf]
    omega
  obtain ⟨unit, hunit⟩ : ∃ unit : ℚ, 2 ^ format.exponentOf num den = unit := ⟨_, rfl⟩
  have hunitPos : 0 < unit := hunit ▸ zpow_pos two_pos _
  -- a number that is rounded up to the next octave has the same value there
  have hvalue : (significand * 2 ^ exponent : ℚ) = format.significandOf num den * unit := by
    rw [BinaryFormat.round_eq hnum] at h
    split at h
    · next hcarry =>
      split at h
      · cases h
        have hdouble : (2 : ℚ) ^ (format.precision - 1) * 2 = 2 ^ format.precision := by
          rw [← pow_succ, Nat.sub_add_cancel hprecision]
        rw [hcarry, ← hunit, zpow_add_one₀ two_ne_zero]
        push_cast
        rw [← hdouble]
        ring
      · exact absurd h (by simp)
    · split at h
      · cases h
        rw [hunit]
      · exact absurd h (by simp)
  have hround := abs_roundHalfEven_sub_le
    (scaleQuotient 2 num den (-format.exponentOf num den)).1
    (scaleQuotient_snd_pos Nat.two_pos num hden (-format.exponentOf num den))
  rw [scaleQuotient_value, Nat.cast_ofNat, zpow_neg, hunit, ← div_eq_mul_inv] at hround
  have hsplit : (significand * 2 ^ exponent : ℚ) - num / den =
      (format.significandOf num den - num / den / unit) * unit := by
    rw [hvalue, sub_mul, div_mul_cancel₀ _ hunitPos.ne']
  have hhalf : 1 / 2 * unit = 2 ^ binaryMagnitude num den * 2 ^ (-(format.precision : Int)) := by
    rw [← hunit, hexponent, ← zpow_add₀ two_ne_zero, one_div, ← zpow_neg_one, ← zpow_add₀ two_ne_zero]
    congr 1
    omega
  calc |(significand * 2 ^ exponent : ℚ) - num / den|
      = |(format.significandOf num den : ℚ) - num / den / unit| * unit := by
        rw [hsplit, abs_mul, abs_of_pos hunitPos]
    _ ≤ 1 / 2 * unit := mul_le_mul_of_nonneg_right hround hunitPos.le
    _ = 2 ^ binaryMagnitude num den * 2 ^ (-(format.precision : Int)) := hhalf
    _ ≤ num / den * 2 ^ (-(format.precision : Int)) := by gcongr

end Formats

end LogoLang
