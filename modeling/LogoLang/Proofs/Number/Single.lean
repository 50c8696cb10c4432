import LogoLang.Number.Literal
import LogoLang.Proofs.Number.Parts
import LogoLang.Turtle.Basic

set_option autoImplicit false

/-! # Single precision

A number of single precision is a double as it is (`exists_isSingle_of_canonical`), so that rounding
to single precision twice is rounding once (`isSingle_single`). An integer of no more digits than a
significand has is such a number when it is made a double (`isSingle_of_doubleOfInt?`). -/

namespace LogoLang

theorem dyadicQuotient_value (significand : Nat) (exponent : Int) :
    ((dyadicQuotient significand exponent).1 : ℚ) / (dyadicQuotient significand exponent).2 =
      significand * 2 ^ exponent := by
  rw [dyadicQuotient, scaleQuotient_value, Nat.cast_one, div_one, Nat.cast_ofNat]

theorem dyadicQuotient_snd_pos (significand : Nat) (exponent : Int) :
    0 < (dyadicQuotient significand exponent).2 :=
  scaleQuotient_snd_pos Nat.two_pos _ Nat.one_pos _

/-- A number of single precision is one of double precision. -/
theorem BinaryFormat.Canonical.exists_double {significand : Nat} {exponent : Int}
    (h : BinaryFormat.single.Canonical significand exponent) :
    ∃ significand' exponent', BinaryFormat.double.Canonical significand' exponent' ∧
      (significand' * 2 ^ exponent' : ℚ) = significand * 2 ^ exponent := by
  by_cases hzero : significand = 0
  · refine ⟨0, -1074, ⟨by decide, by decide, by decide, Or.inr rfl⟩, ?_⟩
    rw [hzero, Nat.cast_zero, zero_mul, zero_mul]
  · have hmin : (-149 : Int) ≤ exponent := h.min_le
    have hmax : exponent ≤ (104 : Int) := h.le_max
    obtain ⟨significand', exponent', hdouble, _, hvalue⟩ :=
      BinaryFormat.double.exists_canonical hzero (Nat.lt_trans h.lt (by decide))
        (show (-1074 : Int) + 53 ≤ exponent + 1 by omega) (show exponent ≤ (971 : Int) by omega)
    exact ⟨significand', exponent', hdouble, hvalue⟩

/-- A value that a double has is rounded to this double. -/
theorem nearestDouble?_of_canonical (negative : Bool) {significand num den : Nat} {exponent : Int}
    (h : BinaryFormat.double.Canonical significand exponent) (hden : 0 < den)
    (hvalue : (num / den : ℚ) = significand * 2 ^ exponent) :
    nearestDouble? negative num den =
      some (FloatParts.toFloat (.finite negative significand exponent)) := by
  rw [nearestDouble?, BinaryFormat.round_of_canonical h (by decide) hden hvalue, Option.map_some]

/-- A double that is rounded to a value of single precision is the double of this value. -/
theorem single_of_round {x : Float} {negative : Bool} {significand significand' : Nat}
    {exponent exponent' : Int} (hx : FloatParts.ofFloat x = .finite negative significand exponent)
    (hround : BinaryFormat.single.round (dyadicQuotient significand exponent).1
      (dyadicQuotient significand exponent).2 = some (significand', exponent')) :
    single x = nearestDouble negative (dyadicQuotient significand' exponent').1
      (dyadicQuotient significand' exponent').2 := by
  unfold single
  rw [hx]
  simp only [hround]

/-- A double that is written like a number of single precision is rounded to it. -/
theorem isSingle_toFloat (negative : Bool) {significand significand' : Nat} {exponent exponent' : Int}
    (hsingle : BinaryFormat.single.Canonical significand exponent)
    (hdouble : BinaryFormat.double.Canonical significand' exponent')
    (hvalue : (significand' * 2 ^ exponent' : ℚ) = significand * 2 ^ exponent) :
    IsSingle (FloatParts.toFloat (.finite negative significand' exponent')) := by
  have hround : BinaryFormat.single.round (dyadicQuotient significand' exponent').1
      (dyadicQuotient significand' exponent').2 = some (significand, exponent) :=
    BinaryFormat.round_of_canonical hsingle (by decide) (dyadicQuotient_snd_pos _ _)
      ((dyadicQuotient_value _ _).trans hvalue)
  have hback := nearestDouble?_of_canonical negative hdouble
    (dyadicQuotient_snd_pos significand exponent) ((dyadicQuotient_value _ _).trans hvalue.symm)
  rw [IsSingle, single_of_round (FloatParts.ofFloat_of_canonical negative hdouble) hround, nearestDouble,
    hback, Option.getD_some]

/-- **A number of single precision has a double, which single precision holds exactly.** -/
theorem exists_isSingle_of_canonical {significand num den : Nat} {exponent : Int}
    (h : BinaryFormat.single.Canonical significand exponent) (negative : Bool) (hden : 0 < den)
    (hvalue : (num / den : ℚ) = significand * 2 ^ exponent) :
    ∃ x, nearestDouble? negative num den = some x ∧ IsSingle x := by
  obtain ⟨significand', exponent', hdouble, hsame⟩ := h.exists_double
  exact ⟨_, nearestDouble?_of_canonical negative hdouble hden (hvalue.trans hsame.symm),
    isSingle_toFloat negative h hdouble hsame⟩

theorem isSingle_infinity (negative : Bool) : IsSingle (infinity negative) := by
  cases negative <;> decide +kernel

/-- **Rounding to single precision ends with a number of single precision.** -/
theorem isSingle_single (x : Float) : IsSingle (single x) := by
  cases hparts : FloatParts.ofFloat x with
  | notANumber | infinite =>
    have hsame : single x = x := by
      unfold single
      rw [hparts]
    rw [hsame]
    exact hsame
  | finite negative significand exponent =>
    unfold single
    rw [hparts]
    simp only
    split
    · next significand' exponent' hround =>
      have hcanonical := BinaryFormat.canonical_of_round (by decide) (by decide)
        (dyadicQuotient_snd_pos _ _) hround
      obtain ⟨y, hy, hsingle⟩ := exists_isSingle_of_canonical hcanonical negative
        (dyadicQuotient_snd_pos _ _) (dyadicQuotient_value significand' exponent')
      rw [nearestDouble, hy]
      exact hsingle
    · exact isSingle_infinity negative

/-! ## Numbers of programs -/

theorem isSingle_of_singleOfLiteral? {t : Text} {x : Float} (h : singleOfLiteral? t = some x) :
    IsSingle x := by
  obtain ⟨d, _, rfl⟩ := Option.map_eq_some_iff.1 h
  exact isSingle_single _

theorem isSingle_color (color : Color) : IsSingle (Float.ofNat color.val) := by
  revert color
  decide +kernel

/-- An integer of no more than 24 binary digits, apart from zeros at its end, is a number of single
    precision. -/
theorem isSingle_of_doubleOfInt? {n : Int} {x : Float} {digits shift : Nat}
    (hn : n.natAbs = digits * 2 ^ shift) (hdigits : digits < 2 ^ 24) (hshift : shift ≤ 104)
    (hx : doubleOfInt? n = some x) : IsSingle x := by
  have hvalue : ((n.natAbs : ℚ) / (1 : Nat)) = digits * 2 ^ (shift : Int) := by
    rw [hn, Nat.cast_one, div_one, zpow_natCast]
    norm_cast
  have hcanonical : ∃ significand exponent, BinaryFormat.single.Canonical significand exponent ∧
      (significand * 2 ^ exponent : ℚ) = digits * 2 ^ (shift : Int) := by
    by_cases hzero : digits = 0
    · refine ⟨0, -149, ⟨by decide, by decide, by decide, Or.inr rfl⟩, ?_⟩
      rw [hzero, Nat.cast_zero, zero_mul, zero_mul]
    · obtain ⟨significand, exponent, hcanonical, _, heq⟩ :=
        BinaryFormat.single.exists_canonical hzero hdigits
          (show (-149 : Int) + 24 ≤ shift + 1 by omega) (show (shift : Int) ≤ 104 by omega)
      exact ⟨significand, exponent, hcanonical, heq⟩
  obtain ⟨significand, exponent, hcanonical, heq⟩ := hcanonical
  obtain ⟨y, hy, hsingle⟩ := exists_isSingle_of_canonical hcanonical (n < 0) Nat.one_pos
    (hvalue.trans heq.symm)
  rw [doubleOfInt?, doubleOfQuotient?, hy] at hx
  cases hx
  exact hsingle

theorem isSingle_of_doubleOfInt?_le {n : Int} {x : Float} (hn : n.natAbs ≤ 2 ^ 24)
    (hx : doubleOfInt? n = some x) : IsSingle x := by
  rcases Nat.lt_or_eq_of_le hn with hlt | heq
  · exact isSingle_of_doubleOfInt? (Nat.mul_one _).symm hlt (Nat.zero_le _) hx
  · exact isSingle_of_doubleOfInt? (heq.trans (Nat.one_mul _).symm) (by decide) (by decide) hx

end LogoLang
