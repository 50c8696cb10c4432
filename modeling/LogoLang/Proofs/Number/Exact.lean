import LogoLang.Proofs.Number.Single

set_option autoImplicit false

/-! # The value of a double

A double that is finite is a rational number (`exactValue?`), and `integerOf?` finds an integer exactly
if the double is equal to that integer (`integerOf?_eq_some_iff`). -/

namespace LogoLang

/-- The number that is `± significand * 2 ^ exponent`. -/
def dyadicValue (negative : Bool) (significand : Nat) (exponent : Int) : ℚ :=
  if negative then -(significand * 2 ^ exponent) else significand * 2 ^ exponent

/-- The number that a double stands for; an infinity and what is not a number stand for none. -/
def exactValue? (x : Float) : Option ℚ :=
  match FloatParts.ofFloat x with
  | .finite negative significand exponent => some (dyadicValue negative significand exponent)
  | .infinite _ | .notANumber => none

/-- A magnitude that is a whole number is the quotient of its parts. -/
theorem dyadicQuotient_div {significand : Nat} {exponent : Int}
    (h : (dyadicQuotient significand exponent).1 % (dyadicQuotient significand exponent).2 = 0) :
    ((((dyadicQuotient significand exponent).1 / (dyadicQuotient significand exponent).2 : Nat) :
      Int) : ℚ) = significand * 2 ^ exponent := by
  have hpos : ((dyadicQuotient significand exponent).2 : ℚ) ≠ 0 :=
    Nat.cast_ne_zero.2 (Nat.ne_of_gt (dyadicQuotient_snd_pos significand exponent))
  rw [Int.cast_natCast, Nat.cast_div (Nat.dvd_of_mod_eq_zero h) hpos, dyadicQuotient_value]

/-- A value that is an integer has a magnitude that is a whole number. -/
theorem mod_eq_zero_of_dyadicValue {significand : Nat} {exponent : Int} {negative : Bool} {n : Int}
    (h : dyadicValue negative significand exponent = n) :
    (dyadicQuotient significand exponent).1 % (dyadicQuotient significand exponent).2 = 0 := by
  have hpos : ((dyadicQuotient significand exponent).2 : ℚ) ≠ 0 :=
    Nat.cast_ne_zero.2 (Nat.ne_of_gt (dyadicQuotient_snd_pos significand exponent))
  obtain ⟨m, hm⟩ : ∃ m : Int, (significand * 2 ^ exponent : ℚ) = m := by
    unfold dyadicValue at h
    cases negative with
    | true => exact ⟨-n, by rw [Int.cast_neg, ← h]; simp⟩
    | false => exact ⟨n, h⟩
  rw [← dyadicQuotient_value, div_eq_iff hpos] at hm
  refine Nat.mod_eq_zero_of_dvd (Int.natCast_dvd_natCast.1 ⟨m, ?_⟩)
  rw [mul_comm]
  exact_mod_cast hm

/-- **An integer is found exactly if the double is equal to it.** -/
theorem integerOf?_eq_some_iff {x : Float} {n : Int} :
    integerOf? x = some n ↔ exactValue? x = some (n : ℚ) := by
  unfold integerOf? exactValue?
  cases FloatParts.ofFloat x with
  | notANumber | infinite => simp
  | finite negative significand exponent =>
    simp only
    split
    · next hmod =>
      rw [dyadicValue, ← dyadicQuotient_div hmod, Option.some.injEq, Option.some.injEq]
      cases negative with
      | true => rw [if_pos rfl, if_pos rfl, ← Int.cast_neg, Int.cast_inj]
      | false => rw [if_neg Bool.false_ne_true, if_neg Bool.false_ne_true, Int.cast_inj]
    · next hmod =>
      refine ⟨fun h => absurd h (by simp), fun h => ?_⟩
      exact absurd (mod_eq_zero_of_dyadicValue (Option.some.inj h)) hmod

end LogoLang
