import LogoLang.Number.Rounding
import Mathlib.Tactic.Ring

set_option autoImplicit false

/-! # Whole numbers in double precision

Rounding a natural number to a double keeps the magnitude of its leading bit, so that it fails from
`doubleOverflow` on and nowhere below (`double_round_eq_none_iff`). Powers of two in range are doubles
themselves (`double_round_two_pow`). -/

namespace LogoLang

/-! ## Rounding to a natural number -/

theorem roundHalfEven_mul (n : Nat) {den : Nat} (hden : 0 < den) :
    roundHalfEven (n * den) den = n := by
  unfold roundHalfEven
  simp only [Nat.mul_div_cancel n hden, Nat.mul_mod_left]
  rw [if_pos (Or.inl (by omega))]

/-- A quotient below the successor of an odd number is rounded to that successor from the half way
    on: the half itself goes to the even one of the two. -/
theorem roundHalfEven_eq_succ_iff {num den bound : Nat} (hden : 0 < den) (hodd : bound % 2 = 1)
    (hlt : num < (bound + 1) * den) :
    roundHalfEven num den = bound + 1 ↔ (2 * bound + 1) * den ≤ 2 * num := by
  have hdivmod := Nat.div_add_mod num den
  have hmod := Nat.mod_lt num hden
  have hquotient : num / den < bound + 1 := Nat.div_lt_of_lt_mul (by rwa [Nat.mul_comm])
  have hhalf : (2 * bound + 1) * den = 2 * (den * bound) + den := by ring
  unfold roundHalfEven
  simp only
  by_cases heq : num / den = bound
  · rw [heq] at hdivmod ⊢
    split <;> omega
  · have hbelow : den * (num / den + 1) ≤ den * bound := Nat.mul_le_mul_left _ (by omega)
    rw [Nat.mul_add, Nat.mul_one] at hbelow
    constructor
    · intro h
      split at h <;> omega
    · intro h
      omega

/-! ## Rounding a natural number to a double -/

theorem floorLog_nat {n : Nat} (hn : n ≠ 0) : floorLog 2 n 1 (n.log2 : Int) = n.log2 := by
  have hle : ¬ n < 2 ^ n.log2 := Nat.not_lt.2 (Nat.log2_self_le hn)
  simp [floorLog, scaleQuotient, hle]

/-- The double nearest to a natural number: its leading bits, counted from the magnitude of the
    number, or one more if they are rounded up beyond the precision. -/
theorem double_round_nat {n : Nat} (hn : n ≠ 0) :
    BinaryFormat.double.round n 1 =
      let significand := roundHalfEven (n * 2 ^ (52 - n.log2)) (2 ^ (n.log2 - 52))
      let exponent : Int := n.log2 - 52
      if significand = 2 ^ 53 then
        if exponent + 1 ≤ 971 then some (2 ^ 52, exponent + 1) else none
      else if exponent ≤ 971 then some (significand, exponent) else none := by
  have hmax : max ((n.log2 : Int) + 1 - 53) (-1074) = (n.log2 : Int) - 52 := by omega
  have hup : (-((n.log2 : Int) - 52)).toNat = 52 - n.log2 := by omega
  have hdown : (- -((n.log2 : Int) - 52)).toNat = n.log2 - 52 := by omega
  have hlog : floorLog 2 n 1 ((n.log2 : Int) - (1 : Nat).log2) = n.log2 := by
    rw [show (1 : Nat).log2 = 0 from rfl, Nat.cast_zero, Int.sub_zero, floorLog_nat hn]
  unfold BinaryFormat.round
  rw [if_neg hn]
  simp only [BinaryFormat.double, hlog, Nat.cast_ofNat, hmax, scaleQuotient, hup, hdown,
    Nat.pow_eq, Nat.one_mul, Nat.reduceSub]
  split <;> simp_all

/-- A power of two in range is a double. -/
theorem double_round_two_pow {k : Nat} (hk : k ≤ 1023) :
    BinaryFormat.double.round (2 ^ k) 1 = some (2 ^ 52, (k : Int) - 52) := by
  have hpos := Nat.two_pow_pos k
  have hscale : 2 ^ k * 2 ^ (52 - k) = 2 ^ 52 * 2 ^ (k - 52) := by
    rw [← Nat.pow_add, ← Nat.pow_add, show k + (52 - k) = 52 + (k - 52) by omega]
  rw [double_round_nat (by omega), Nat.log2_two_pow, hscale,
    roundHalfEven_mul _ (Nat.two_pow_pos _)]
  simp only
  rw [if_neg (by decide), if_pos (by omega)]

/-- The least natural number that is out of the range of doubles: the half way from the largest double
    to the power of two after it. -/
def doubleOverflow : Nat := (2 ^ 54 - 1) * 2 ^ 970

theorem doubleOverflow_le_two_pow : doubleOverflow ≤ 2 ^ 1024 := by
  rw [show 1024 = 54 + 970 from rfl, pow_add]
  exact Nat.mul_le_mul_right _ (Nat.sub_le _ _)

theorem le_doubleOverflow : 2 ^ 54 - 1 ≤ doubleOverflow :=
  Nat.le_mul_of_pos_right _ (pow_pos Nat.two_pos 970)

theorem two_pow_le_doubleOverflow : 2 ^ 1023 ≤ doubleOverflow := by
  rw [show 1023 = 53 + 970 from rfl, pow_add]
  exact Nat.mul_le_mul_right _ (by decide)

/-- Below the last octave there is room for rounding up. -/
theorem double_round_ne_none {n : Nat} (hn : n ≠ 0) (hlt : n.log2 < 1023) :
    BinaryFormat.double.round n 1 ≠ none := by
  have hcarry : (n.log2 : Int) - 52 + 1 ≤ 971 := by omega
  have hfits : (n.log2 : Int) - 52 ≤ 971 := by omega
  rw [double_round_nat hn]
  simp only
  rw [if_pos hcarry, if_pos hfits]
  split <;> simp

/-- Beyond the last octave nothing is in range. -/
theorem double_round_eq_none {n : Nat} (hgt : 1023 < n.log2) :
    BinaryFormat.double.round n 1 = none := by
  have hn : n ≠ 0 := by
    rintro rfl
    exact absurd hgt (by decide)
  have hcarry : ¬ (n.log2 : Int) - 52 + 1 ≤ 971 := by omega
  have hfits : ¬ (n.log2 : Int) - 52 ≤ 971 := by omega
  rw [double_round_nat hn]
  simp only
  rw [if_neg hcarry, if_neg hfits, ite_self]

/-- In the last octave a number is out of range if its leading bits are rounded up to the next one. -/
theorem double_round_eq_none_iff_of_log2_eq {n : Nat} (heq : n.log2 = 1023) :
    BinaryFormat.double.round n 1 = none ↔ doubleOverflow ≤ n := by
  have hn : n ≠ 0 := by
    rintro rfl
    exact absurd heq (by decide)
  have hhigh : n < 2 ^ (n.log2 + 1) := Nat.lt_log2_self
  unfold doubleOverflow
  -- the power is only a unit here, and too large to be computed with
  obtain ⟨unit, hunit⟩ : ∃ unit, 2 ^ 970 = unit := ⟨_, rfl⟩
  have hpos : 0 < unit := hunit ▸ pow_pos Nat.two_pos 970
  rw [double_round_nat hn, hunit]
  rw [heq] at hhigh ⊢
  rw [show 1023 + 1 = 54 + 970 from rfl, pow_add, hunit] at hhigh
  simp only
  rw [show 52 - 1023 = 0 from rfl, show 1023 - 52 = 970 + 1 from rfl, pow_succ, hunit, pow_zero,
    Nat.mul_one]
  have hround : roundHalfEven n (unit * 2) = 2 ^ 53 ↔
      (2 * (2 ^ 53 - 1) + 1) * (unit * 2) ≤ 2 * n :=
    roundHalfEven_eq_succ_iff (by omega) (by decide) (by omega)
  by_cases hup : roundHalfEven n (unit * 2) = 2 ^ 53
  · have hover := hround.1 hup
    rw [if_pos hup, if_neg (by omega)]
    simp only [true_iff]
    omega
  · have hunder := mt hround.2 hup
    rw [if_neg hup, if_pos (by omega)]
    simp only [reduceCtorEq, false_iff]
    omega

/-- **A natural number is out of the range of doubles from `doubleOverflow` on.** -/
theorem double_round_eq_none_iff {n : Nat} :
    BinaryFormat.double.round n 1 = none ↔ doubleOverflow ≤ n := by
  by_cases hn : n = 0
  · subst hn
    refine iff_of_false (by simp [BinaryFormat.round]) (Nat.not_le.2 ?_)
    exact Nat.lt_of_lt_of_le (by decide) le_doubleOverflow
  · rcases Nat.lt_trichotomy n.log2 1023 with hlt | heq | hgt
    · have hsmall : n < 2 ^ 1023 :=
        Nat.lt_of_lt_of_le Nat.lt_log2_self (pow_le_pow_right₀ (by decide) hlt)
      exact iff_of_false (double_round_ne_none hn hlt)
        (Nat.not_le.2 (Nat.lt_of_lt_of_le hsmall two_pow_le_doubleOverflow))
    · exact double_round_eq_none_iff_of_log2_eq heq
    · have hlarge : 2 ^ 1024 ≤ n :=
        Nat.le_trans (pow_le_pow_right₀ (by decide) hgt) (Nat.log2_self_le hn)
      exact iff_of_true (double_round_eq_none hgt)
        (Nat.le_trans doubleOverflow_le_two_pow hlarge)

end LogoLang
