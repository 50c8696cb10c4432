import LogoLang.Number.Double
import LogoLang.Proofs.Number.Rounding
import Mathlib

set_option autoImplicit false

/-! # Doubles and their parts

A double that is neither subnormal nor infinite has the parts that it is made of
(`FloatParts.ofFloat_toFloat`). An integer has no double exactly if its magnitude is at least
`doubleOverflow` (`doubleOfInt?_eq_none_iff`), and the double of a power of two is equal to it
(`exists_double_two_pow`). -/

namespace LogoLang

open Float.Model (Format)
open Float.Model.UnpackedFloat

/-! ## Bits -/

/-- The bits of a number whose exponent is not the greatest come back from its model. -/
theorem pack_unpack_finite (s : Sign) {e : BitVec 11} (m : BitVec 52) (hfinite : e ≠ -1#11) :
    pack Format.binary64 (unpack Format.binary64 (packComponents Format.binary64 s e m)) =
      packComponents Format.binary64 s e m := by
  have hnan : isNaNBits (packComponents Format.binary64 s e m) = false := by
    unfold isNaNBits
    rw [unpackExponent_packComponents]
    exact decide_eq_false fun h => hfinite h.1
  rw [pack_unpack, hnan]
  rfl

theorem packComponents_toNat (s : Sign) (e : BitVec 11) (m : BitVec 52) :
    (packComponents Format.binary64 s e m).toNat =
      s.toBitVec.toNat * 2 ^ 63 + (e.toNat * 2 ^ 52 + m.toNat) := by
  change (s.toBitVec ++ e ++ m).toNat = _
  rw [BitVec.toNat_append, BitVec.toNat_append, ← Nat.shiftLeft_add_eq_or_of_lt m.isLt,
    ← Nat.shiftLeft_add_eq_or_of_lt e.isLt, Nat.shiftLeft_eq, Nat.shiftLeft_eq]
  omega

/-- The sign of a double that is negative or not. -/
def signOf (negative : Bool) : Sign := if negative then .negative else .positive

theorem signOf_toNat (negative : Bool) :
    (signOf negative).toBitVec.toNat * 2 ^ 63 = signBit negative := by
  cases negative <;> rfl

/-- A finite double keeps the bits that it is made of. -/
theorem toBits_ofBits (negative : Bool) {field fraction : Nat}
    (hfield : field + 1 < exponentValues) (hfraction : fraction < leadingBit) :
    (Float.ofBits (UInt64.ofNat (signBit negative + (field * leadingBit + fraction)))).toBits.toNat =
      signBit negative + (field * leadingBit + fraction) := by
  have hfield' : (BitVec.ofNat 11 field).toNat = field := by
    unfold exponentValues at hfield
    rw [BitVec.toNat_ofNat, Nat.mod_eq_of_lt (by omega)]
  have hfraction' : (BitVec.ofNat 52 fraction).toNat = fraction := by
    unfold leadingBit at hfraction
    rw [BitVec.toNat_ofNat, Nat.mod_eq_of_lt (by omega)]
  have hbits : signBit negative + (field * leadingBit + fraction) =
      (packComponents Format.binary64 (signOf negative) (BitVec.ofNat 11 field)
        (BitVec.ofNat 52 fraction)).toNat := by
    rw [packComponents_toNat, hfield', hfraction', signOf_toNat]
    rfl
  have hword (word : BitVec 64) : (Float.ofBits (UInt64.ofNat word.toNat)).toBits.toNat =
      (pack Format.binary64 (unpack Format.binary64 word)).toNat := by
    change (pack Format.binary64 (unpack Format.binary64 (BitVec.ofNat 64 word.toNat))).toNat = _
    rw [BitVec.ofNat_toNat, BitVec.setWidth_eq]
  rw [hbits]
  refine (hword _).trans (congrArg BitVec.toNat (pack_unpack_finite _ _ ?_))
  intro h
  rw [h] at hfield'
  change 2047 = field at hfield'
  unfold exponentValues at hfield
  omega

/-- The three fields of a double's bits. -/
theorem fields_of_bits (negative : Bool) {field fraction : Nat} (hfield : field < exponentValues)
    (hfraction : fraction < leadingBit) :
    let bits := signBit negative + (field * leadingBit + fraction)
    decide (bits / signWeight = 1) = negative ∧ bits / leadingBit % exponentValues = field ∧
      bits % leadingBit = fraction := by
  unfold exponentValues at hfield ⊢
  unfold leadingBit at hfraction ⊢
  unfold signBit signWeight
  cases negative with
  | false =>
    simp only [Bool.false_eq_true, if_false, decide_eq_false_iff_not]
    omega
  | true =>
    simp only [if_true, decide_eq_true_eq]
    omega

/-- A double has the parts that it is made of, when the significand has its leading bit. -/
theorem FloatParts.ofFloat_toFloat (negative : Bool) {significand : Nat} {exponent : Int}
    (hlow : leadingBit ≤ significand) (hhigh : significand < 2 * leadingBit)
    (hmin : -1074 ≤ exponent) (hmax : exponent ≤ 971) :
    FloatParts.ofFloat (FloatParts.toFloat (.finite negative significand exponent)) =
      .finite negative significand exponent := by
  have hfield : (exponent + 1075).toNat + 1 < exponentValues := by
    unfold exponentValues
    omega
  have hfraction : significand - leadingBit < leadingBit := by omega
  obtain ⟨hsign, hexponent, hrest⟩ := fields_of_bits negative (Nat.lt_of_succ_lt hfield) hfraction
  unfold FloatParts.ofFloat FloatParts.toFloat
  simp only [if_neg (Nat.not_lt.2 hlow), toBits_ofBits negative hfield hfraction,
    hsign, hexponent, hrest]
  rw [if_neg (by omega), if_neg (by omega)]
  rw [Nat.add_sub_cancel' hlow, Int.toNat_of_nonneg (by omega), Int.add_sub_cancel]

/-! ## Integers as doubles -/

/-- **An integer is out of the range of doubles if its magnitude is.** -/
theorem doubleOfInt?_eq_none_iff {n : Int} :
    doubleOfInt? n = none ↔ doubleOverflow ≤ n.natAbs := by
  rw [doubleOfInt?, doubleOfQuotient?, nearestDouble?, Option.map_eq_none_iff,
    double_round_eq_none_iff]

/-- A whole number that is given by its significand and exponent is equal to its double. -/
theorem integerOf?_toFloat {significand n : Nat} {exponent : Int} (hlow : leadingBit ≤ significand)
    (hhigh : significand < 2 * leadingBit) (hmin : -1074 ≤ exponent) (hmax : exponent ≤ 971)
    (hscale : significand * 2 ^ exponent.toNat = n * 2 ^ (-exponent).toNat) :
    integerOf? (FloatParts.toFloat (.finite false significand exponent)) = some (n : Int) := by
  have hpos : 0 < 2 ^ (-exponent).toNat := Nat.two_pow_pos _
  unfold integerOf?
  rw [FloatParts.ofFloat_toFloat false hlow hhigh hmin hmax]
  simp only [dyadicQuotient, scaleQuotient, Nat.pow_eq, Nat.one_mul, hscale, Nat.mul_mod_left,
    Nat.mul_div_cancel _ hpos, if_true, Bool.false_eq_true, if_false]

/-- A power of two in range is equal to its double. -/
theorem exists_double_two_pow {k : Nat} (hk : k ≤ 1023) :
    ∃ x, doubleOfInt? ((2 ^ k : Nat) : Int) = some x ∧
      integerOf? x = some ((2 ^ k : Nat) : Int) := by
  have hnonneg : ¬ ((2 ^ k : Nat) : Int) < 0 := Int.not_lt.2 (Int.natCast_nonneg _)
  have hlead : leadingBit = 2 ^ 52 := by norm_num [leadingBit]
  have hup : ((k : Int) - 52).toNat = k - 52 := by omega
  have hdown : (-((k : Int) - 52)).toNat = 52 - k := by omega
  refine ⟨FloatParts.toFloat (.finite false (2 ^ 52) ((k : Int) - 52)), ?_, ?_⟩
  · rw [doubleOfInt?, doubleOfQuotient?, nearestDouble?, Int.natAbs_natCast,
      double_round_two_pow hk, decide_eq_false hnonneg, Option.map_some]
  · refine integerOf?_toFloat (by omega) (by omega) (by omega) (by omega) ?_
    rw [hup, hdown, ← pow_add, ← pow_add, show k + (52 - k) = 52 + (k - 52) by omega]

end LogoLang
