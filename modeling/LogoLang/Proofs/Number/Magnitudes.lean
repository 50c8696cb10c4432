import LogoLang.Number.Literal
import LogoLang.Proofs.Number.Shortest

set_option autoImplicit false

/-! # Written magnitudes

Digits with a point among them or with a power of ten after them are read as the number that they write
(`isMagnitude_positional`, `isMagnitude_scientific`), whatever zeros the writing adds or leaves out. -/

namespace LogoLang

/-! ## Digits -/

/-- A text has no characters but decimal digits. -/
def IsDigits (t : Text) : Prop := ∀ c ∈ t, c.isDigit = true

theorem IsDigits.append {t u : Text} (ht : IsDigits t) (hu : IsDigits u) : IsDigits (t ++ u) :=
  List.forall_mem_append.2 ⟨ht, hu⟩

theorem isDigits_zeros (count : Nat) : IsDigits (List.replicate count '0') := by
  intro c hc
  rw [List.eq_of_mem_replicate hc]
  rfl

theorem Text.isDigits_ofNat (n : Nat) : IsDigits (Text.ofNat n) :=
  fun _ hc => Nat.isDigit_of_mem_toDigits (by decide) (by decide) hc

theorem Text.toNat_eq_ofDigitChars (t : Text) : Text.toNat t = Nat.ofDigitChars 10 t 0 :=
  Nat.ofDigitChars_eq_foldl.symm

@[simp]
theorem Text.toNat_ofNat (n : Nat) : Text.toNat (Text.ofNat n) = n := by
  rw [Text.toNat_eq_ofDigitChars, Text.ofNat, Nat.ofDigitChars_toDigits (by decide) (by decide)]

theorem Text.toNat_zeros_append (count : Nat) (t : Text) :
    Text.toNat (List.replicate count '0' ++ t) = Text.toNat t := by
  rw [Text.toNat_eq_ofDigitChars, Nat.ofDigitChars_append, Nat.ofDigitChars_replicate_zero,
    Nat.mul_zero, Text.toNat_eq_ofDigitChars]

theorem Text.toNat_append_zeros (t : Text) (count : Nat) :
    Text.toNat (t ++ List.replicate count '0') = 10 ^ count * Text.toNat t := by
  rw [Text.toNat_eq_ofDigitChars, Nat.ofDigitChars_append, Nat.ofDigitChars_replicate_zero,
    Text.toNat_eq_ofDigitChars]

/-! ## Numbers with a point -/

theorem readUnsigned?_digits {whole : Text} (hwhole : IsDigits whole) (hne : whole ≠ []) :
    readUnsigned? whole = some (Text.toNat whole, 0) := by
  have htake : whole.takeWhile Char.isDigit = whole := List.takeWhile_eq_self_iff.2 hwhole
  have hdrop : whole.dropWhile Char.isDigit = [] := List.dropWhile_eq_nil_iff.2 hwhole
  simp only [readUnsigned?, htake, hdrop, List.isEmpty_iff, if_neg hne]

theorem readUnsigned?_point {whole fraction : Text} (hwhole : IsDigits whole)
    (hfraction : IsDigits fraction) (hne : whole ++ fraction ≠ []) :
    readUnsigned? (whole ++ '.' :: fraction) =
      some (Text.toNat (whole ++ fraction), fraction.length) := by
  have htake : (whole ++ '.' :: fraction).takeWhile Char.isDigit = whole := by
    rw [List.takeWhile_append_of_pos hwhole, List.takeWhile_cons_of_neg (by decide), List.append_nil]
  have hdrop : (whole ++ '.' :: fraction).dropWhile Char.isDigit = '.' :: fraction := by
    rw [List.dropWhile_append_of_pos hwhole, List.dropWhile_cons_of_neg (by decide)]
  have hempty : (whole ++ fraction).isEmpty = false := by
    rw [← Bool.not_eq_true, List.isEmpty_iff]
    exact hne
  simp only [readUnsigned?, htake, hdrop, List.all_eq_true.2 hfraction, hempty, Bool.not_false,
    Bool.and_self, if_true]

/-! ## Magnitudes -/

/-- A character of a literal: a digit, the point, a sign or the mark of the power of ten. -/
def isLiteralChar (c : Char) : Bool := c.isDigit || ".-+e".toList.contains c

theorem IsDigits.literal {t : Text} (h : IsDigits t) : ∀ c ∈ t, isLiteralChar c = true := by
  intro c hc
  rw [isLiteralChar, h c hc, Bool.true_or]

/-- A text that writes a number without a sign: it starts with a digit, and it is read as a decimal of
    this value, whatever the sign is. -/
structure IsMagnitude (t : Text) (value : ℚ) : Prop where
  literal : ∀ c ∈ t, isLiteralChar c = true
  head : ∃ c rest, t = c :: rest ∧ c.isDigit = true
  reads : ∀ negative, ∃ d, readScaled? negative t = some d ∧ d.negative = negative ∧
    d.magnitude = value

/-- A character that starts the power of ten. -/
abbrev isPowerMark (c : Char) : Bool := c == 'e' || c == 'E'

theorem isPowerMark_of_isDigit {c : Char} (h : c.isDigit = true) : isPowerMark c = false := by
  by_contra hmark
  rw [Bool.not_eq_false, Bool.or_eq_true, beq_iff_eq, beq_iff_eq] at hmark
  rcases hmark with rfl | rfl <;> exact absurd h (by decide)

theorem readScaled?_of_unmarked {t : Text} {digits places : Nat}
    (hmark : ∀ c ∈ t, isPowerMark c = false) (hread : readUnsigned? t = some (digits, places))
    (negative : Bool) : readScaled? negative t = some ⟨negative, digits, -places⟩ := by
  have htake : t.takeWhile (!isPowerMark ·) = t :=
    List.takeWhile_eq_self_iff.2 fun c hc => by rw [hmark c hc, Bool.not_false]
  have hdrop : t.dropWhile (!isPowerMark ·) = [] :=
    List.dropWhile_eq_nil_iff.2 fun c hc => by rw [hmark c hc, Bool.not_false]
  simp only [readScaled?, htake, hdrop, hread]

/-- Digits with a point among them. -/
theorem isMagnitude_point {digits : Text} (hdigits : IsDigits digits) {whole : Nat}
    (hpos : 0 < whole) (hlt : whole < digits.length) :
    IsMagnitude (digits.take whole ++ '.' :: digits.drop whole)
      (Text.toNat digits * 10 ^ ((whole : Int) - digits.length)) := by
  have htake : IsDigits (digits.take whole) := fun c hc => hdigits c (List.mem_of_mem_take hc)
  have hdrop : IsDigits (digits.drop whole) := fun c hc => hdigits c (List.mem_of_mem_drop hc)
  have hne : digits.take whole ≠ [] := by
    rw [← List.length_pos_iff, List.length_take]
    omega
  refine ⟨?_, ?_, fun negative => ?_⟩
  · rw [List.forall_mem_append, List.forall_mem_cons]
    exact ⟨htake.literal, by decide, hdrop.literal⟩
  · obtain ⟨c, rest, hhead⟩ := List.exists_cons_of_ne_nil hne
    refine ⟨c, rest ++ '.' :: digits.drop whole, by rw [hhead, List.cons_append], htake c ?_⟩
    rw [hhead]
    exact List.mem_cons_self
  · have hmark : ∀ c ∈ digits.take whole ++ '.' :: digits.drop whole, isPowerMark c = false := by
      rw [List.forall_mem_append, List.forall_mem_cons]
      exact ⟨fun c hc => isPowerMark_of_isDigit (htake c hc), by decide,
        fun c hc => isPowerMark_of_isDigit (hdrop c hc)⟩
    have hread := readUnsigned?_point htake hdrop fun h => hne (List.append_eq_nil_iff.1 h).1
    refine ⟨_, readScaled?_of_unmarked hmark hread negative, rfl, ?_⟩
    rw [Decimal.magnitude, List.take_append_drop, List.length_drop, Nat.cast_sub hlt.le, neg_sub]

/-- **A number in positional notation has the value of its digits at their place.** -/
theorem isMagnitude_positional {digits : Text} (hdigits : IsDigits digits) (point : Int) :
    IsMagnitude (positional digits point) (Text.toNat digits * 10 ^ (point - digits.length)) := by
  obtain ⟨missing, hmissing⟩ : ∃ missing, (1 - point).toNat = missing := ⟨_, rfl⟩
  obtain ⟨whole, hwhole⟩ : ∃ whole, (point + missing).toNat = whole := ⟨_, rfl⟩
  obtain ⟨added, hadded⟩ : ∃ added,
    whole + 1 - (List.replicate missing '0' ++ digits).length = added := ⟨_, rfl⟩
  have hpadded : IsDigits (List.replicate missing '0' ++ digits ++ List.replicate added '0') :=
    ((isDigits_zeros missing).append hdigits).append (isDigits_zeros added)
  rw [List.length_append, List.length_replicate] at hadded
  have hlength : (List.replicate missing '0' ++ digits ++ List.replicate added '0').length =
      missing + digits.length + added := by
    rw [List.length_append, List.length_append, List.length_replicate, List.length_replicate]
  have hmagnitude := isMagnitude_point hpadded (show 0 < whole by omega) (by omega)
  have hplace : (whole : Int) - (missing + digits.length + added : Nat) =
      point - digits.length - added := by omega
  have hvalue : ((10 ^ added * Text.toNat digits : Nat) : ℚ) * 10 ^ (point - digits.length - added) =
      Text.toNat digits * 10 ^ (point - digits.length) := by
    rw [zpow_sub₀ (by norm_num), zpow_natCast]
    push_cast
    field_simp
  rw [hlength, hplace, Text.toNat_append_zeros, Text.toNat_zeros_append, hvalue] at hmagnitude
  simp only [positional, hmissing, hwhole, List.length_append, List.length_replicate, hadded]
  exact hmagnitude

/-! ## Powers of ten -/

theorem readSigned?_power {digits : Text} {power : Int} (hdigits : IsDigits digits)
    (hne : digits ≠ []) (hvalue : Text.toNat digits = power.natAbs) :
    readSigned? ((if power < 0 then '-' else '+') :: digits) = some power := by
  have hempty : digits.isEmpty = false := by
    rw [← Bool.not_eq_true, List.isEmpty_iff]
    exact hne
  have hall : digits.all Char.isDigit = true := List.all_eq_true.2 hdigits
  split
  · next hneg =>
    simp only [readSigned?, hempty, hall, hvalue, Bool.not_true, Bool.or_self, if_true]
    rw [if_neg Bool.false_ne_true, Int.ofNat_natAbs_of_nonpos hneg.le, Int.neg_neg]
  · next hpos =>
    simp only [readSigned?, hempty, hall, hvalue, Bool.not_true, Bool.or_self]
    rw [if_neg Bool.false_ne_true, if_neg Bool.false_ne_true, Int.natAbs_of_nonneg (Int.not_lt.1 hpos)]

/-- A number and a power of ten that is not cut down. -/
theorem readScaled?_power {mantissa power : Text} {digits places : Nat} {exponent : Int}
    (hmark : ∀ c ∈ mantissa, isPowerMark c = false)
    (hread : readUnsigned? mantissa = some (digits, places))
    (hpower : readSigned? power = some exponent) (hbound : exponent.natAbs ≤ 400) (negative : Bool) :
    readScaled? negative (mantissa ++ 'e' :: power) =
      some ⟨negative, digits, exponent - places⟩ := by
  have hmark' : ∀ c ∈ mantissa, (!isPowerMark c) = true := fun c hc => by
    rw [hmark c hc, Bool.not_false]
  have htake : (mantissa ++ 'e' :: power).takeWhile (!isPowerMark ·) = mantissa := by
    rw [List.takeWhile_append_of_pos hmark', List.takeWhile_cons_of_neg (by decide), List.append_nil]
  have hdrop : (mantissa ++ 'e' :: power).dropWhile (!isPowerMark ·) = 'e' :: power := by
    rw [List.dropWhile_append_of_pos hmark', List.dropWhile_cons_of_neg (by decide)]
  have hclamp : max (-(400 + (mantissa.length : Int))) (min (400 + mantissa.length) exponent) =
      exponent := by omega
  simp only [readScaled?, htake, hdrop, hread, hpower, hclamp, Option.map_some]

/-- The digits of a number with one of them before the point. -/
theorem readUnsigned?_leading {c : Char} {fraction : Text} (hdigits : IsDigits (c :: fraction)) :
    readUnsigned? (c :: (if fraction.isEmpty then [] else '.' :: fraction)) =
      some (Text.toNat (c :: fraction), fraction.length) := by
  cases fraction with
  | nil => exact readUnsigned?_digits hdigits (List.cons_ne_nil _ _)
  | cons d rest =>
    have hfirst : IsDigits [c] := List.forall_mem_singleton.2 (hdigits c List.mem_cons_self)
    exact readUnsigned?_point hfirst (fun x hx => hdigits x (List.mem_cons_of_mem _ hx))
      (List.cons_ne_nil _ _)

/-- **A number with a power of ten has the value of its digits at their place.** -/
theorem isMagnitude_scientific {digits : Text} (hdigits : IsDigits digits) (hne : digits ≠ [])
    {power : Int} (hpower : power.natAbs ≤ 400) :
    IsMagnitude (scientific digits power)
      (Text.toNat digits * 10 ^ (power + 1 - digits.length)) := by
  obtain ⟨c, fraction, rfl⟩ := List.exists_cons_of_ne_nil hne
  have hc : c.isDigit = true := hdigits c List.mem_cons_self
  obtain ⟨exponent, hexponent⟩ : ∃ exponent, Text.ofNat power.natAbs = exponent := ⟨_, rfl⟩
  have hexponentDigits : IsDigits (List.replicate (2 - exponent.length) '0' ++ exponent) :=
    (isDigits_zeros _).append (hexponent ▸ Text.isDigits_ofNat _)
  have hexponentNe : List.replicate (2 - exponent.length) '0' ++ exponent ≠ [] := by
    intro hnil
    have hpos : 0 < exponent.length := hexponent ▸ digitCount_pos power.natAbs
    rw [(List.append_eq_nil_iff.1 hnil).2] at hpos
    exact absurd hpos (Nat.lt_irrefl 0)
  have hexponentValue :
      Text.toNat (List.replicate (2 - exponent.length) '0' ++ exponent) = power.natAbs := by
    rw [Text.toNat_zeros_append, ← hexponent, Text.toNat_ofNat]
  have hmark : ∀ x ∈ c :: (if fraction.isEmpty then [] else '.' :: fraction),
      isPowerMark x = false := by
    refine List.forall_mem_cons.2 ⟨isPowerMark_of_isDigit hc, ?_⟩
    split
    · simp
    · refine List.forall_mem_cons.2 ⟨by decide, fun x hx => ?_⟩
      exact isPowerMark_of_isDigit (hdigits x (List.mem_cons_of_mem _ hx))
  have htext : scientific (c :: fraction) power =
      (c :: (if fraction.isEmpty then [] else '.' :: fraction)) ++
        'e' :: ((if power < 0 then '-' else '+') ::
          (List.replicate (2 - exponent.length) '0' ++ exponent)) := by
    simp [scientific, hexponent]
  have hliteral : ∀ x ∈ c :: (if fraction.isEmpty then [] else '.' :: fraction),
      isLiteralChar x = true := by
    have hfraction := List.forall_mem_cons.1 hdigits.literal
    refine List.forall_mem_cons.2 ⟨hfraction.1, ?_⟩
    split
    · simp
    · exact List.forall_mem_cons.2 ⟨by decide, hfraction.2⟩
  have hsign : isLiteralChar (if power < 0 then '-' else '+') = true := by split <;> decide
  rw [htext]
  refine ⟨?_, ⟨c, _, List.cons_append, hc⟩, fun negative => ?_⟩
  · refine List.forall_mem_append.2 ⟨hliteral, ?_⟩
    exact List.forall_mem_cons.2 ⟨by decide, List.forall_mem_cons.2 ⟨hsign, hexponentDigits.literal⟩⟩
  have hreadPower := readSigned?_power hexponentDigits hexponentNe hexponentValue
  refine ⟨_, readScaled?_power hmark (readUnsigned?_leading hdigits) hreadPower hpower negative, rfl, ?_⟩
  rw [Decimal.magnitude, List.length_cons]
  push_cast
  congr 2
  ring

end LogoLang
