import LogoLang.Proofs.Number.Double
import LogoLang.Proofs.Number.Format

set_option autoImplicit false

/-! # A double is its parts

A double is given back by its parts (`FloatParts.toFloat_ofFloat`), and the parts of a finite one are
those of a number of the format (`BinaryFormat.canonical_of_parts`). The other way round, a number of
the format is the parts of its double, also a subnormal one (`FloatParts.ofFloat_of_canonical`). -/

namespace LogoLang

open Float.Model (Format)
open Float.Model.UnpackedFloat

/-! ## Bits of a double -/

/-- The bits of a double are those of its sign, of its exponent and of its fraction. -/
theorem bits_eq_fields (x : Float) :
    x.toBits.toNat = signBit (decide (x.toBits.toNat / signWeight = 1)) +
      (x.toBits.toNat / leadingBit % exponentValues * leadingBit + x.toBits.toNat % leadingBit) := by
  have hlt : x.toBits.toNat < 2 ^ 64 := x.toBits.toNat_lt
  obtain ⟨bits, hbits⟩ : ∃ bits, x.toBits.toNat = bits := ⟨_, rfl⟩
  rw [hbits] at hlt ⊢
  unfold signBit
  by_cases hsign : bits / signWeight = 1
  · rw [decide_eq_true hsign, if_pos rfl]
    unfold signWeight leadingBit exponentValues at *
    omega
  · rw [decide_eq_false hsign, if_neg Bool.false_ne_true]
    unfold signWeight leadingBit exponentValues at *
    omega

theorem ofBits_toNat (x : Float) : Float.ofBits (UInt64.ofNat x.toBits.toNat) = x := by
  rw [UInt64.ofNat_toNat, Float.ofBits_toBits]

/-- What is no number has the same bits as everything else that is none. -/
theorem toBits_of_isNaNBits {x : Float}
    (h : @isNaNBits Format.binary64 x.toBits.toBitVec = true) :
    x.toBits.toBitVec = packedNaN Format.binary64 := by
  have hmodel : x.toBits.toBitVec =
      pack Format.binary64 (unpack Format.binary64 x.toBits.toBitVec) :=
    congrArg (fun y : Float => y.toBits.toBitVec) (Float.ofBits_toBits x).symm
  rw [pack_unpack, if_pos h] at hmodel
  exact hmodel

theorem isNaNBits_of_fields {word : BitVec 64}
    (htop : word.toNat / leadingBit % exponentValues + 1 = exponentValues)
    (hfraction : word.toNat % leadingBit ≠ 0) :
    @isNaNBits Format.binary64 word = true := by
  have hexponent : @unpackExponent Format.binary64 word = -1#11 := by
    refine BitVec.eq_of_toNat_eq ?_
    change (BitVec.extractLsb 62 52 word).toNat = 2047
    rw [BitVec.extractLsb_toNat, Nat.shiftRight_eq_div_pow]
    unfold leadingBit exponentValues at htop
    omega
  have hmantissa : @unpackMantissa Format.binary64 word ≠ 0#52 := by
    intro hzero
    have hnat : (BitVec.extractLsb 51 0 word).toNat = 0 := congrArg BitVec.toNat hzero
    rw [BitVec.extractLsb_toNat, Nat.shiftRight_zero] at hnat
    exact hfraction hnat
  exact decide_eq_true ⟨hexponent, hmantissa⟩

/-! ## Parts of a double -/

/-- **A double is given back by its parts.** -/
theorem FloatParts.toFloat_ofFloat (x : Float) : (FloatParts.ofFloat x).toFloat = x := by
  have hbits := bits_eq_fields x
  have hx := ofBits_toNat x
  have hfield : x.toBits.toNat / leadingBit % exponentValues < exponentValues :=
    Nat.mod_lt _ (by decide)
  have hfraction : x.toBits.toNat % leadingBit < leadingBit := Nat.mod_lt _ (by decide)
  unfold FloatParts.ofFloat
  simp only
  split
  · next htop =>
    have hweight : x.toBits.toNat / leadingBit % exponentValues * leadingBit = 0x7ff0000000000000 := by
      unfold exponentValues leadingBit at htop ⊢
      omega
    split
    · next hzero =>
      rw [hzero, Nat.add_zero, hweight] at hbits
      rw [FloatParts.toFloat, ← hbits, hx]
    · next hne =>
      have hnan := toBits_of_isNaNBits (isNaNBits_of_fields htop hne)
      refine Float.toBits_inj.1 (UInt64.toBitVec_inj.1 (Eq.trans ?_ hnan.symm))
      decide +kernel
  · split
    · next hnone =>
      rw [hnone, Nat.zero_mul, Nat.zero_add] at hbits
      simp only [FloatParts.toFloat, if_pos hfraction]
      rw [← hbits, hx]
    · next hsome =>
      simp only [FloatParts.toFloat]
      rw [if_neg (by omega), Int.sub_add_cancel, Int.toNat_natCast, Nat.add_sub_cancel_left, ← hbits, hx]

theorem exists_parts_of_isFinite {x : Float} (h : isFinite x = true) :
    ∃ negative significand exponent, FloatParts.ofFloat x = .finite negative significand exponent := by
  unfold isFinite at h
  split at h
  · next negative significand exponent hx => exact ⟨negative, significand, exponent, hx⟩
  · exact absurd h (by simp)

theorem leadingBit_eq : leadingBit = 2 ^ (BinaryFormat.double.precision - 1) := by
  norm_num [leadingBit, BinaryFormat.double]

/-- The parts of a finite double are those of a number of the format. -/
theorem BinaryFormat.canonical_of_parts {x : Float} {negative : Bool} {significand : Nat}
    {exponent : Int} (h : FloatParts.ofFloat x = .finite negative significand exponent) :
    BinaryFormat.double.Canonical significand exponent := by
  have hfield : x.toBits.toNat / leadingBit % exponentValues < exponentValues :=
    Nat.mod_lt _ (by decide)
  have hfraction : x.toBits.toNat % leadingBit < leadingBit := Nat.mod_lt _ (by decide)
  have hdouble : 2 ^ BinaryFormat.double.precision = leadingBit + leadingBit := by
    norm_num [leadingBit, BinaryFormat.double]
  unfold FloatParts.ofFloat at h
  simp only at h
  split at h
  · split at h <;> exact absurd h (by simp)
  · next hfinite =>
    split at h
    · cases h
      exact ⟨by omega, le_refl _, by decide, Or.inr rfl⟩
    · next hsome =>
      cases h
      unfold exponentValues at hfield hfinite hsome ⊢
      refine ⟨by omega, ?_, ?_, Or.inl (leadingBit_eq ▸ Nat.le_add_right _ _)⟩
      · change (-1074 : Int) ≤ _
        omega
      · change _ ≤ (971 : Int)
        omega

/-- **A number of the format is the parts of its double.** -/
theorem FloatParts.ofFloat_of_canonical (negative : Bool) {significand : Nat} {exponent : Int}
    (h : BinaryFormat.double.Canonical significand exponent) :
    FloatParts.ofFloat (FloatParts.toFloat (.finite negative significand exponent)) =
      .finite negative significand exponent := by
  have hhigh : significand < 2 * leadingBit := h.lt
  by_cases hlow : leadingBit ≤ significand
  · exact FloatParts.ofFloat_toFloat negative hlow hhigh h.min_le h.le_max
  · have hleast : exponent = BinaryFormat.double.minExponent :=
      h.leading.resolve_left fun hleading => hlow (leadingBit_eq ▸ hleading)
    have hfraction : significand < leadingBit := Nat.lt_of_not_le hlow
    have hbits := toBits_ofBits negative (show 0 + 1 < exponentValues by decide) hfraction
    obtain ⟨hsign, hexponent, hrest⟩ :=
      fields_of_bits negative (show 0 < exponentValues by decide) hfraction
    rw [Nat.zero_mul, Nat.zero_add] at hbits hsign hexponent hrest
    unfold FloatParts.ofFloat FloatParts.toFloat
    simp only [if_pos hfraction, hbits, hsign, hexponent, hrest]
    rw [if_neg (by decide), if_true, hleast]

end LogoLang
