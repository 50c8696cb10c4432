import LogoLang.Proofs.Number.Shortest

set_option autoImplicit false

/-! # Short forms of single precision

A finite number of single precision is given back by its nine leading digits, by way of the double
nearest to them (`IsSingle.single_roundSignificant_nine`). So the search for its short form ends with a
rounding that gives it back, and with the one of the fewest digits
(`IsSingle.exists_shortForSingle`). -/

namespace LogoLang

/-! ## Numbers of single precision -/

theorem ofFloat_infinity (negative : Bool) :
    FloatParts.ofFloat (infinity negative) = .infinite negative := by
  cases negative <;> decide +kernel

/-- The value of a finite number of single precision is one of the format. -/
theorem IsSingle.exists_canonical {x : Float} {negative : Bool} {significand : Nat} {exponent : Int}
    (hsingle : IsSingle x) (hx : FloatParts.ofFloat x = .finite negative significand exponent) :
    ∃ significand' exponent', BinaryFormat.single.Canonical significand' exponent' ∧
      (significand' * 2 ^ exponent' : ℚ) = significand * 2 ^ exponent := by
  cases hround : BinaryFormat.single.round (dyadicQuotient significand exponent).1
      (dyadicQuotient significand exponent).2 with
  | none =>
    unfold IsSingle single at hsingle
    rw [hx] at hsingle
    simp only [hround] at hsingle
    rw [← hsingle, ofFloat_infinity] at hx
    cases hx
  | some rounded =>
    obtain ⟨significand', exponent'⟩ := rounded
    have hcanonical := BinaryFormat.canonical_of_round (by decide) (by decide)
      (dyadicQuotient_snd_pos significand exponent) hround
    obtain ⟨_, _, hdouble, hsame⟩ := hcanonical.exists_double
    have hnearest := nearestDouble?_of_canonical negative hdouble
      (dyadicQuotient_snd_pos significand' exponent') ((dyadicQuotient_value _ _).trans hsame.symm)
    rw [IsSingle, single_of_round hx hround, nearestDouble, hnearest, Option.getD_some] at hsingle
    rw [← hsingle, FloatParts.ofFloat_of_canonical negative hdouble] at hx
    cases hx
    exact ⟨significand', exponent', hcanonical, hsame.symm⟩

/-! ## Rounding twice -/

/-- How near a decimal has to be to a number of single precision, in relation to its value. -/
abbrev decimalTolerance : ℚ := 1 / 10 ^ 8

/-- The double that a value near a number of single precision is rounded to is near this number, too. -/
theorem exists_double_near {num den : Nat} {v : ℚ} (hden : 0 < den) (hlow : (2 : ℚ) ^ (-149 : Int) ≤ v)
    (hhigh : v < 2 ^ (128 : Int)) (hnear : |(num / den : ℚ) - v| ≤ v * decimalTolerance) :
    ∃ significand exponent, BinaryFormat.double.Canonical significand exponent ∧
      BinaryFormat.double.round num den = some (significand, exponent) ∧
      |(significand * 2 ^ exponent : ℚ) - v| < v * tolerance 24 := by
  have hpos : 0 < v := lt_of_lt_of_le (by positivity) hlow
  obtain ⟨hbelow, habove⟩ := abs_le.1 hnear
  have hhalf : v / 2 ≤ (num / den : ℚ) := by linarith
  have hdouble : (num / den : ℚ) ≤ v * 2 := by linarith
  have hnum : num ≠ 0 := by
    rintro rfl
    rw [Nat.cast_zero, zero_div] at hhalf
    linarith
  have hfull : (2 : ℚ) ^ (-1074 + 53 - 1 : Int) ≤ num / den :=
    calc (2 : ℚ) ^ (-1074 + 53 - 1 : Int) ≤ 2 ^ (-149 - 1 : Int) :=
          zpow_le_zpow_right₀ one_le_two (by decide)
      _ = 2 ^ (-149 : Int) / 2 := zpow_sub_one₀ two_ne_zero _
      _ ≤ v / 2 := by gcongr
      _ ≤ num / den := hhalf
  have hrange : (num / den : ℚ) < 2 ^ (971 + 53 - 1 : Int) :=
    calc (num / den : ℚ) ≤ v * 2 := hdouble
      _ < 2 ^ (128 : Int) * 2 := by gcongr
      _ = 2 ^ (128 + 1 : Int) := (zpow_add_one₀ two_ne_zero _).symm
      _ ≤ 2 ^ (971 + 53 - 1 : Int) := zpow_le_zpow_right₀ one_le_two (by decide)
  obtain ⟨significand, exponent, hround⟩ :
      ∃ significand exponent, BinaryFormat.double.round num den = some (significand, exponent) :=
    BinaryFormat.exists_round hnum hden (by decide) hrange
  have hoff := BinaryFormat.abs_round_sub_le (by decide) hnum hden hround hfull
  have hcanonical := BinaryFormat.canonical_of_round (by decide) (by decide) hden hround
  refine ⟨significand, exponent, hcanonical, hround, ?_⟩
  calc |(significand * 2 ^ exponent : ℚ) - v|
      ≤ |(significand * 2 ^ exponent : ℚ) - num / den| + |(num / den : ℚ) - v| := abs_sub_le _ _ _
    _ ≤ num / den * 2 ^ (-(53 : Nat) : Int) + v * decimalTolerance := add_le_add hoff hnear
    _ ≤ v * 2 * 2 ^ (-(53 : Nat) : Int) + v * decimalTolerance := by gcongr
    _ < v * tolerance 24 := by
      have htolerance : 2 * 2 ^ (-(53 : Nat) : Int) + decimalTolerance < tolerance 24 := by
        norm_num [tolerance, decimalTolerance]
      rw [mul_assoc, ← mul_add]
      exact mul_lt_mul_of_pos_left htolerance hpos

section Single

variable {x : Float} {negative : Bool} {significand num den : Nat} {exponent : Int}

/-- **What is near a number of single precision is rounded to it by way of the nearest double.** -/
theorem IsSingle.single_nearestDouble (hsingle : IsSingle x)
    (hx : FloatParts.ofFloat x = .finite negative significand exponent) (hne : significand ≠ 0)
    (hden : 0 < den) (hnear : |(num / den : ℚ) - significand * 2 ^ exponent| ≤
      significand * 2 ^ exponent * decimalTolerance) : single (nearestDouble negative num den) = x := by
  obtain ⟨significand', exponent', hcanonical, hsame⟩ := hsingle.exists_canonical hx
  have hpos : (0 : ℚ) < significand * 2 ^ exponent := by
    have hpos' : (0 : ℚ) < significand := by exact_mod_cast Nat.pos_of_ne_zero hne
    positivity
  have hone : (1 : ℚ) ≤ significand' := by
    rw [← hsame] at hpos
    have hpos' : (0 : ℚ) < significand' := pos_of_mul_pos_left hpos (by positivity)
    exact_mod_cast hpos'
  have hlow : (2 : ℚ) ^ (-149 : Int) ≤ significand' * 2 ^ exponent' :=
    calc (2 : ℚ) ^ (-149 : Int) ≤ 2 ^ exponent' := zpow_le_zpow_right₀ one_le_two hcanonical.min_le
      _ ≤ significand' * 2 ^ exponent' := le_mul_of_one_le_left (by positivity) hone
  have hhigh : (significand' * 2 ^ exponent' : ℚ) < 2 ^ (128 : Int) := by
    have hlt : (significand' : ℚ) < 2 ^ (24 : Int) := by exact_mod_cast hcanonical.lt
    calc (significand' * 2 ^ exponent' : ℚ) < 2 ^ (24 : Int) * 2 ^ exponent' := by gcongr
      _ = 2 ^ (24 + exponent') := (zpow_add₀ two_ne_zero _ _).symm
      _ ≤ 2 ^ (24 + 104 : Int) :=
        zpow_le_zpow_right₀ one_le_two (add_le_add_right hcanonical.le_max 24)
  rw [← hsame] at hnear
  obtain ⟨significand₂, exponent₂, hdouble, hround, hoff⟩ := exists_double_near hden hlow hhigh hnear
  have hnearest : FloatParts.ofFloat (nearestDouble negative num den) =
      .finite negative significand₂ exponent₂ := by
    rw [nearestDouble, nearestDouble?, hround, Option.map_some, Option.getD_some,
      FloatParts.ofFloat_of_canonical negative hdouble]
  have hback := BinaryFormat.round_of_near hcanonical (by decide) (dyadicQuotient_snd_pos _ _)
    (by rwa [dyadicQuotient_value])
  rw [single_of_round hnearest hback]
  exact nearestDouble_of_parts hx (dyadicQuotient_snd_pos _ _) ((dyadicQuotient_value _ _).trans hsame)

/-! ## Roundings to some digits -/

/-- The decimal of `count` digits that is nearest to a quotient. -/
def roundedDecimal (negative : Bool) (count num den : Nat) : Decimal :=
  ⟨negative, (roundToDigits count num den).1, (roundToDigits count num den).2⟩

/-- A quotient is rounded to `count + 1` digits with an error of less than a unit of the last one. -/
theorem abs_magnitude_roundedDecimal_sub_le (count : Nat) (hnum : num ≠ 0) (hden : 0 < den) :
    |(roundedDecimal negative (count + 1) num den).magnitude - num / den| ≤ num / den / 10 ^ count := by
  obtain ⟨place, hplace⟩ : ∃ place, decimalMagnitude num den + 1 - (count + 1 : Nat) = place := ⟨_, rfl⟩
  obtain ⟨hlow, _⟩ := decimalMagnitude_bounds hnum hden
  have hten : (10 : ℚ) ≠ 0 := by norm_num
  have hpos := scaleQuotient_snd_pos (by decide : 0 < 10) num hden (-place)
  have hround := abs_roundHalfEven_sub_le (scaleQuotient 10 num den (-place)).1 hpos
  obtain ⟨digits, hdigits⟩ : ∃ digits, roundHalfEven (scaleQuotient 10 num den (-place)).1
    (scaleQuotient 10 num den (-place)).2 = digits := ⟨_, rfl⟩
  -- digits that are rounded up to one more are cut off again, with the same value
  have hvalue : (roundedDecimal negative (count + 1) num den).magnitude = digits * 10 ^ place := by
    simp only [Decimal.magnitude, roundedDecimal, roundToDigits, if_neg hnum, hplace, hdigits]
    split
    · next hcarry =>
      rw [hcarry, Nat.add_sub_cancel, zpow_add_one₀ hten]
      push_cast [Nat.pow_eq]
      ring
    · rfl
  rw [scaleQuotient_value, Nat.cast_ofNat, zpow_neg, ← div_eq_mul_inv, hdigits] at hround
  have hunit : (0 : ℚ) < 10 ^ place := by positivity
  have hsplit : digits * 10 ^ place - (num / den : ℚ) =
      (digits - num / den / 10 ^ place) * 10 ^ place := by
    rw [sub_mul, div_mul_cancel₀ _ hunit.ne']
  calc |(roundedDecimal negative (count + 1) num den).magnitude - num / den|
      = |(digits : ℚ) - num / den / 10 ^ place| * 10 ^ place := by
        rw [hvalue, hsplit, abs_mul, abs_of_pos hunit]
    _ ≤ 1 / 2 * 10 ^ place := mul_le_mul_of_nonneg_right hround hunit.le
    _ ≤ 10 ^ place := by linarith
    _ = 10 ^ decimalMagnitude num den / 10 ^ count := by
        rw [← zpow_natCast, ← zpow_sub₀ hten, ← hplace]
        congr 1
        push_cast
        ring
    _ ≤ num / den / 10 ^ count := by gcongr

/-- The rounding of a zero to digits is a zero. -/
theorem magnitude_roundedDecimal_zero (count : Nat) :
    (roundedDecimal negative count 0 den).magnitude = 0 := by
  rw [Decimal.magnitude, roundedDecimal, roundToDigits, if_pos rfl, Nat.cast_zero, zero_mul]

theorem roundSignificant_eq (count : Nat)
    (hx : FloatParts.ofFloat x = .finite negative significand exponent) :
    roundSignificant count x = (roundedDecimal negative count (dyadicQuotient significand exponent).1
      (dyadicQuotient significand exponent).2).toDouble := by
  unfold roundSignificant
  rw [hx]
  rfl

/-- **Nine digits give a number of single precision back.** -/
theorem IsSingle.single_roundSignificant_nine (hsingle : IsSingle x)
    (hx : FloatParts.ofFloat x = .finite negative significand exponent) :
    single (roundSignificant 9 x) = x := by
  have hden := dyadicQuotient_snd_pos significand exponent
  have hvalue := dyadicQuotient_value significand exponent
  rw [roundSignificant_eq 9 hx]
  generalize dyadicQuotient significand exponent = quotient at *
  obtain ⟨num, den⟩ := quotient
  simp only at *
  obtain ⟨d, hd⟩ : ∃ d, roundedDecimal negative 9 num den = d := ⟨_, rfl⟩
  have hnegative : d.negative = negative := hd ▸ rfl
  rw [hd, Decimal.toDouble_eq d.quotient_snd_pos d.quotient_value.symm, hnegative]
  by_cases hzero : significand = 0
  · have hnum : num = 0 := by
      rw [hzero, Nat.cast_zero, zero_mul, quotient_eq_zero_iff hden] at hvalue
      exact hvalue
    have hsame : nearestDouble negative d.quotient.1 d.quotient.2 = x := by
      refine nearestDouble_of_parts hx d.quotient_snd_pos (d.quotient_value.trans ?_)
      rw [← hd, hnum, magnitude_roundedDecimal_zero, hzero, Nat.cast_zero, zero_mul]
    rw [hsame]
    exact hsingle
  · have hnum : num ≠ 0 := by
      rintro rfl
      rw [Nat.cast_zero, zero_div, eq_comm, mul_eq_zero, Nat.cast_eq_zero] at hvalue
      exact hvalue.elim hzero (zpow_ne_zero _ two_ne_zero)
    refine hsingle.single_nearestDouble hx hzero d.quotient_snd_pos ?_
    rw [d.quotient_value, ← hd, ← hvalue, decimalTolerance, mul_one_div]
    exact abs_magnitude_roundedDecimal_sub_le 8 hnum hden

end Single

/-! ## The search -/

/-- The first of the numbers from one on that has a result. -/
theorem findSome?_range'_of_first {α : Type} {f : Nat → Option α} {y : α} {count last : Nat}
    (hpos : 1 ≤ count) (hle : count ≤ last) (hsome : f count = some y)
    (hnone : ∀ fewer, 1 ≤ fewer → fewer < count → f fewer = none) :
    (List.range' 1 last).findSome? f = some y := by
  obtain ⟨before, rfl⟩ := Nat.exists_eq_add_of_le hpos
  obtain ⟨after, rfl⟩ := Nat.exists_eq_add_of_le hle
  rw [show 1 + before + after = before + (after + 1) by omega, ← List.range'_append_1,
    List.range'_succ, List.findSome?_append, List.findSome?_cons_of_isSome (by rw [hsome]; rfl), hsome,
    List.findSome?_eq_none_iff.2, Option.none_or]
  intro fewer hfewer
  rw [List.mem_range'_1] at hfewer
  exact hnone fewer hfewer.1 hfewer.2

/-- **The short form of a finite number of single precision is its rounding to the fewest digits that
    give it back.** -/
theorem IsSingle.exists_shortForSingle {x : Float} (hsingle : IsSingle x) (hfinite : isFinite x = true) :
    ∃ count, 1 ≤ count ∧ count ≤ 9 ∧ shortForSingle x = roundSignificant count x ∧
      single (roundSignificant count x) = x ∧
      ∀ fewer, 1 ≤ fewer → fewer < count → single (roundSignificant fewer x) ≠ x := by
  obtain ⟨negative, significand, exponent, hx⟩ := exists_parts_of_isFinite hfinite
  have hexists : ∃ count, 1 ≤ count ∧ single (roundSignificant count x) = x :=
    ⟨9, by decide, hsingle.single_roundSignificant_nine hx⟩
  obtain ⟨hpos, hback⟩ := Nat.find_spec hexists
  have hnine : Nat.find hexists ≤ 9 :=
    Nat.find_min' hexists ⟨by decide, hsingle.single_roundSignificant_nine hx⟩
  have hfewer (fewer : Nat) (hone : 1 ≤ fewer) (hlt : fewer < Nat.find hexists) :
      single (roundSignificant fewer x) ≠ x := fun h => Nat.find_min hexists hlt ⟨hone, h⟩
  refine ⟨Nat.find hexists, hpos, hnine, ?_, hback, hfewer⟩
  have hfirst : (List.range' 1 17).findSome? (fun count =>
      if single (roundSignificant count x) = x then some (roundSignificant count x) else none) =
      some (roundSignificant (Nat.find hexists) x) :=
    findSome?_range'_of_first hpos (by omega) (if_pos hback)
      fun fewer hone hlt => if_neg (hfewer fewer hone hlt)
  exact (congrArg (·.getD x) hfirst).trans (Option.getD_some ..)

end LogoLang
