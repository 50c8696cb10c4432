import LogoLang.Number.Decimal
import LogoLang.Proofs.Number.Nearest
import LogoLang.Proofs.Number.Single

set_option autoImplicit false

/-! # Decimals that read back

The decimal that is found for a finite double reads back as the double (`readsBack_shortestDecimal`): the
search for it ends at the latest where the grid of decimals holds the value of the double itself. A
decimal is read by its value, whatever zeros it ends with (`Decimal.toDouble_congr`). -/

namespace LogoLang

/-! ## Values of decimals -/

/-- The value of a decimal without its sign. -/
def Decimal.magnitude (d : Decimal) : ℚ := d.digits * 10 ^ d.exponent

theorem Decimal.quotient_snd_pos (d : Decimal) : 0 < d.quotient.2 :=
  scaleQuotient_snd_pos (by decide) _ Nat.one_pos _

theorem Decimal.quotient_value (d : Decimal) :
    (d.quotient.1 : ℚ) / d.quotient.2 = d.magnitude := by
  rw [Decimal.quotient, scaleQuotient_value, Nat.cast_one, div_one, Nat.cast_ofNat,
    Decimal.magnitude]

theorem nearestDouble_congr (negative : Bool) {num den num' den' : Nat} (hden : 0 < den)
    (hden' : 0 < den') (h : (num / den : ℚ) = num' / den') :
    nearestDouble negative num den = nearestDouble negative num' den' := by
  rw [nearestDouble, nearestDouble, nearestDouble?, nearestDouble?,
    BinaryFormat.round_congr hden hden' h]

/-- A decimal is read as the double nearest to its value. -/
theorem Decimal.toDouble_eq {d : Decimal} {num den : Nat} (hden : 0 < den)
    (h : d.magnitude = num / den) : d.toDouble = nearestDouble d.negative num den :=
  nearestDouble_congr d.negative d.quotient_snd_pos hden (d.quotient_value.trans h)

/-- **A decimal is read by its sign and its value.** -/
theorem Decimal.toDouble_congr {d d' : Decimal} (hsign : d.negative = d'.negative)
    (hvalue : d.magnitude = d'.magnitude) : d.toDouble = d'.toDouble := by
  rw [Decimal.toDouble_eq d'.quotient_snd_pos (hvalue.trans d'.quotient_value.symm), hsign]
  rfl

/-- The double nearest to the value of a finite double is this double. -/
theorem nearestDouble_of_parts {x : Float} {negative : Bool} {significand num den : Nat}
    {exponent : Int} (hx : FloatParts.ofFloat x = .finite negative significand exponent)
    (hden : 0 < den) (hvalue : (num / den : ℚ) = significand * 2 ^ exponent) :
    nearestDouble negative num den = x := by
  have hcanonical := BinaryFormat.canonical_of_parts hx
  rw [nearestDouble, nearestDouble?_of_canonical negative hcanonical hden hvalue, Option.getD_some,
    ← hx, FloatParts.toFloat_ofFloat]

/-! ## Decimal magnitudes -/

theorem digitCount_pos (n : Nat) : 0 < digitCount n := Nat.length_toDigits_pos

theorem lt_pow_digitCount (n : Nat) : n < 10 ^ digitCount n :=
  (Nat.length_toDigits_le_iff (by decide) (digitCount_pos n)).1 (Nat.le_refl _)

theorem pow_le_of_digitCount {n count : Nat} (hn : n ≠ 0) (h : digitCount n = count + 1) :
    10 ^ count ≤ n := by
  by_contra hlt
  rcases Nat.eq_zero_or_pos count with rfl | hpos
  · omega
  · have hshort := (Nat.length_toDigits_le_iff (by decide) hpos).2 (Nat.lt_of_not_le hlt)
    unfold digitCount at h
    omega

theorem decimalMagnitude_bounds {num den : Nat} (hnum : num ≠ 0) (hden : 0 < den) :
    (10 : ℚ) ^ decimalMagnitude num den ≤ num / den ∧
      (num / den : ℚ) < 10 ^ (decimalMagnitude num den + 1) := by
  obtain ⟨above, habove⟩ := Nat.exists_eq_add_of_lt (digitCount_pos num)
  obtain ⟨below, hbelow⟩ := Nat.exists_eq_add_of_lt (digitCount_pos den)
  rw [Nat.zero_add] at habove hbelow
  have hupper : (digitCount num : Int) - digitCount den = (above : Int) - below := by omega
  rw [decimalMagnitude, hupper]
  exact floorLog_bounds (by decide) hden (pow_le_of_digitCount hnum habove)
    (habove ▸ lt_pow_digitCount num) (pow_le_of_digitCount hden.ne' hbelow)
    (hbelow ▸ lt_pow_digitCount den)

/-- A quotient has `count` digits before the point when its digits are brought there. -/
theorem scaled_bounds {num den : Nat} (count : Nat) (hnum : num ≠ 0) (hden : 0 < den) :
    let scaled := scaleQuotient 10 num den (-(decimalMagnitude num den + 1 - (count + 1 : Nat)))
    ((10 ^ count : Nat) : ℚ) ≤ scaled.1 / scaled.2 ∧
      (scaled.1 / scaled.2 : ℚ) < (10 ^ (count + 1) : Nat) := by
  intro scaled
  obtain ⟨hlow, hhigh⟩ := decimalMagnitude_bounds hnum hden
  have hpos : (0 : ℚ) < 10 ^ (-(decimalMagnitude num den + 1 - (count + 1 : Nat))) := by positivity
  have hten : (10 : ℚ) ≠ 0 := by norm_num
  rw [scaleQuotient_value, Nat.cast_ofNat]
  constructor
  · calc ((10 ^ count : Nat) : ℚ)
        = 10 ^ decimalMagnitude num den *
          10 ^ (-(decimalMagnitude num den + 1 - (count + 1 : Nat))) := by
          rw [← zpow_add₀ hten, Nat.cast_pow, Nat.cast_ofNat, ← zpow_natCast]
          congr 1
          push_cast
          ring
      _ ≤ _ := by gcongr
  · calc _ < 10 ^ (decimalMagnitude num den + 1) *
          10 ^ (-(decimalMagnitude num den + 1 - (count + 1 : Nat))) := by gcongr
      _ = ((10 ^ (count + 1) : Nat) : ℚ) := by
          rw [← zpow_add₀ hten, Nat.cast_pow, Nat.cast_ofNat, ← zpow_natCast]
          congr 1
          push_cast
          ring

/-! ## The search -/

/-- What the search finds: a decimal of some number of digits that reads back as the double, and is one
    of the two of this number of digits on either side of the quotient. -/
structure ReadsBack (x : Float) (negative : Bool) (num den : Nat) (d : Decimal) : Prop where
  toDouble_eq : d.toDouble = x
  negative_eq : d.negative = negative
  grid : ∃ count : Nat, d.exponent = decimalMagnitude num den - count ∧
    10 ^ count ≤ d.digits ∧ d.digits ≤ 10 ^ (count + 1)

section Search

variable {x : Float} {negative : Bool} {num den count : Nat} {d : Decimal}

theorem readsBack_of_neighbour (hnum : num ≠ 0) (hden : 0 < den)
    (h : neighbourReadingBack? x negative num den (count + 1) = some d) :
    ReadsBack x negative num den d := by
  obtain ⟨hlow, hhigh⟩ := scaled_bounds count hnum hden
  obtain ⟨scaled, hscaled⟩ : ∃ scaled, scaleQuotient 10 num den
    (-(decimalMagnitude num den + 1 - (count + 1 : Nat))) = scaled := ⟨_, rfl⟩
  have hpos : 0 < scaled.2 := hscaled ▸ scaleQuotient_snd_pos (by decide) num hden _
  rw [hscaled] at hlow hhigh
  have hlow' : 10 ^ count * scaled.2 ≤ scaled.1 := (le_div_iff_nat hpos).1 hlow
  have hhigh' : scaled.1 < 10 ^ (count + 1) * scaled.2 := (div_lt_iff_nat hpos).1 hhigh
  have hfloor : 10 ^ count ≤ scaled.1 / scaled.2 := (Nat.le_div_iff_mul_le hpos).2 hlow'
  have hceil : scaled.1 / scaled.2 < 10 ^ (count + 1) := (Nat.div_lt_iff_lt_mul hpos).2 hhigh'
  have hexponent : decimalMagnitude num den + 1 - (count + 1 : Nat) =
      decimalMagnitude num den - count := by
    push_cast
    ring
  have hround := roundHalfEven_le hpos hhigh'.le
  have hround' := le_roundHalfEven hpos hlow'
  simp only [neighbourReadingBack?, hscaled] at h
  split at h
  · next hread =>
    cases h
    exact ⟨hread, rfl, count, hexponent, hround', hround⟩
  · split at h
    · next hread =>
      cases h
      exact ⟨hread, rfl, count, hexponent, hfloor, hceil.le⟩
    · split at h
      · next hread =>
        cases h
        exact ⟨hread, rfl, count, hexponent, Nat.le_succ_of_le hfloor, hceil⟩
      · exact absurd h (by simp)

theorem readsBack_of_searchDigits {fuel : Nat} (hnum : num ≠ 0) (hden : 0 < den)
    (h : searchDigits x negative num den fuel (count + 1) = some d) :
    ReadsBack x negative num den d := by
  induction fuel generalizing count with
  | zero => exact absurd h (by simp [searchDigits])
  | succ fuel ih =>
    rw [searchDigits, Option.or_eq_some_iff] at h
    rcases h with h | ⟨_, h⟩
    · exact readsBack_of_neighbour hnum hden h
    · exact ih h

/-- The search does not pass by a grid that has a decimal reading back. -/
theorem searchDigits_isSome {fuel start : Nat} (hstart : start ≤ count) (hend : count < start + fuel)
    (h : (neighbourReadingBack? x negative num den count).isSome = true) :
    (searchDigits x negative num den fuel start).isSome = true := by
  induction fuel generalizing start with
  | zero => omega
  | succ fuel ih =>
    rw [searchDigits, Option.isSome_or, Bool.or_eq_true]
    rcases Nat.eq_or_lt_of_le hstart with rfl | hlt
    · exact Or.inl h
    · exact Or.inr (ih hlt (by omega))

/-- A grid that holds the value of the double has a decimal reading back. -/
theorem neighbourReadingBack?_isSome {n : Nat} (hden : 0 < den)
    (hx : nearestDouble negative num den = x)
    (hexact : (num / den : ℚ) * 10 ^ (-(decimalMagnitude num den + 1 - count)) = n) :
    (neighbourReadingBack? x negative num den count).isSome = true := by
  have hpos := scaleQuotient_snd_pos (by decide : 0 < 10) num hden
    (-(decimalMagnitude num den + 1 - count))
  have hround : roundHalfEven
      (scaleQuotient 10 num den (-(decimalMagnitude num den + 1 - count))).1
      (scaleQuotient 10 num den (-(decimalMagnitude num den + 1 - count))).2 = n := by
    refine roundHalfEven_of_near hpos ?_
    rw [scaleQuotient_value, Nat.cast_ofNat, hexact, sub_self, abs_zero]
    norm_num
  have hread : Decimal.toDouble ⟨negative, n, decimalMagnitude num den + 1 - count⟩ = x := by
    rw [← hx]
    refine Decimal.toDouble_eq hden ?_
    rw [Decimal.magnitude, ← hexact, mul_assoc, ← zpow_add₀ (by norm_num), neg_add_cancel, zpow_zero,
      mul_one]
  simp only [neighbourReadingBack?, hround, hread, if_true, Option.isSome_some]

end Search

/-! ## The shortest decimal -/

/-- A dyadic number is written exactly with as many digits as reach the place of its exponent. -/
theorem exists_exact_digits (significand : Nat) (exponent : Int) :
    ∃ n : Nat, (significand * 2 ^ exponent * 10 ^ (-min exponent 0) : ℚ) = n := by
  rcases Int.le_total 0 exponent with hnonneg | hneg
  · obtain ⟨k, rfl⟩ := Int.eq_ofNat_of_zero_le hnonneg
    refine ⟨significand * 2 ^ k, ?_⟩
    rw [min_eq_right hnonneg, neg_zero, zpow_zero, mul_one]
    push_cast
    rw [zpow_natCast]
  · obtain ⟨k, hk⟩ := Int.eq_ofNat_of_zero_le (Int.neg_nonneg_of_nonpos hneg)
    refine ⟨significand * 5 ^ k, ?_⟩
    have hsplit : (10 : ℚ) ^ k = 2 ^ k * 5 ^ k := by
      rw [← mul_pow]
      norm_num
    rw [min_eq_left hneg, hk, show exponent = -(k : Int) by omega, zpow_neg, zpow_natCast, zpow_natCast,
      hsplit]
    push_cast
    field_simp

/-- The place of the exponent is not left of the first digit. -/
theorem min_le_decimalMagnitude {significand num den : Nat} {exponent : Int} (hne : significand ≠ 0)
    (hden : 0 < den) (hvalue : (num / den : ℚ) = significand * 2 ^ exponent) :
    min exponent 0 ≤ decimalMagnitude num den := by
  have hone : (1 : ℚ) ≤ significand := by exact_mod_cast Nat.one_le_iff_ne_zero.2 hne
  have hpos : (0 : ℚ) < significand * 2 ^ exponent := by positivity
  have hnum : num ≠ 0 := by
    rw [← hvalue] at hpos
    rintro rfl
    rw [Nat.cast_zero, zero_div] at hpos
    exact lt_irrefl _ hpos
  obtain ⟨_, hhigh⟩ := decimalMagnitude_bounds hnum hden
  have hlow : (10 : ℚ) ^ min exponent 0 ≤ num / den := by
    rw [hvalue]
    refine le_trans ?_ (le_mul_of_one_le_left (by positivity) hone)
    rcases Int.le_total 0 exponent with hnonneg | hneg
    · rw [min_eq_right hnonneg, zpow_zero]
      exact one_le_zpow₀ one_le_two hnonneg
    · rw [min_eq_left hneg]
      obtain ⟨k, hk⟩ := Int.eq_ofNat_of_zero_le (Int.neg_nonneg_of_nonpos hneg)
      rw [show exponent = -(k : Int) by omega, zpow_neg, zpow_neg, zpow_natCast, zpow_natCast]
      gcongr
      norm_num
  have hlt := (zpow_lt_zpow_iff_right₀ (by norm_num : (1 : ℚ) < 10)).1 (lt_of_le_of_lt hlow hhigh)
  omega

/-- **The shortest decimal of a finite double other than zero is found by the search**, so that it reads
    back as the double. -/
theorem readsBack_shortestDecimal {x : Float} {negative : Bool} {significand : Nat} {exponent : Int}
    (hx : FloatParts.ofFloat x = .finite negative significand exponent) (hne : significand ≠ 0) :
    ReadsBack x negative (dyadicQuotient significand exponent).1
      (dyadicQuotient significand exponent).2 (shortestDecimal negative significand exponent) := by
  have hden := dyadicQuotient_snd_pos significand exponent
  have hvalue := dyadicQuotient_value significand exponent
  have hmagnitude := min_le_decimalMagnitude hne hden hvalue
  obtain ⟨n, hn⟩ := exists_exact_digits significand exponent
  have hnearest := nearestDouble_of_parts hx hden hvalue
  unfold shortestDecimal
  rw [if_neg hne]
  simp only
  generalize dyadicQuotient significand exponent = quotient at *
  obtain ⟨num, den⟩ := quotient
  simp only at *
  have hnum : num ≠ 0 := by
    rintro rfl
    rw [Nat.cast_zero, zero_div, eq_comm, mul_eq_zero, Nat.cast_eq_zero] at hvalue
    exact hvalue.elim hne (zpow_ne_zero _ two_ne_zero)
  obtain ⟨count, hcount⟩ : ∃ count, (decimalMagnitude num den + 1 - min exponent 0).toNat = count :=
    ⟨_, rfl⟩
  have hplaces : decimalMagnitude num den + 1 - count = min exponent 0 := by omega
  have hfound : (searchDigits x negative num den count 1).isSome = true := by
    refine searchDigits_isSome (by omega : 1 ≤ count) (by omega)
      (neighbourReadingBack?_isSome (n := n) hden hnearest ?_)
    rw [hplaces, hvalue, hn]
  obtain ⟨d, hd⟩ := Option.isSome_iff_exists.1 hfound
  rw [hcount, hnearest, hd, Option.getD_some]
  have hstart : searchDigits x negative num den count (0 + 1) = some d := hd
  exact readsBack_of_searchDigits hnum hden hstart

end LogoLang
