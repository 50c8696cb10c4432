import LogoLang.Proofs.Number.Magnitudes

set_option autoImplicit false

/-! # Written numbers are read back

A written double is read as this double (`readMeasure?_ofDouble`), so that different doubles are written
differently. The digits are written without the zeros at their end, and with a point or a power of ten,
which leaves the value of the decimal as it is. -/

namespace LogoLang

/-! ## Measures -/

/-- The digits from `0` to `9`. -/
def plainDigits : Text := ['0', '1', '2', '3', '4', '5', '6', '7', '8', '9']

theorem mem_plainDigits_of_isDigit {c : Char} (h : c.isDigit = true) : c ∈ plainDigits := by
  simp only [Char.isDigit, Bool.and_eq_true, decide_eq_true_eq, UInt32.le_iff_toNat_le] at h
  obtain ⟨code, hcode⟩ : ∃ code, c.toNat = code := ⟨_, rfl⟩
  have hlow : 48 ≤ code := hcode ▸ h.1
  have hhigh : code ≤ 57 := hcode ▸ h.2
  rw [← Char.ofNat_toNat c, hcode]
  interval_cases code <;> decide

/-- A character that is one of those of a measure as it is. -/
def isPlain (c : Char) : Bool := plainDigit c == c && !isMeasureBlank c && c != '_'

/-- The characters of literals are those of a measure as they are. -/
theorem isPlain_of_isLiteralChar {c : Char} (h : isLiteralChar c = true) : isPlain c = true := by
  have hdigits : plainDigits.all isPlain = true := by decide +kernel
  have hothers : ".-+e".toList.all isPlain = true := by decide +kernel
  rw [isLiteralChar, Bool.or_eq_true, List.contains_iff_mem] at h
  exact h.elim (fun hdigit => List.all_eq_true.1 hdigits c (mem_plainDigits_of_isDigit hdigit))
    (List.all_eq_true.1 hothers c)

theorem dropGrouping?_of_not_mem {t : Text} (h : '_' ∉ t) : dropGrouping? t = some t := by
  fun_induction dropGrouping? t with
  | case1 => rfl
  | case2 => exact absurd List.mem_cons_self h
  | case3 | case4 => exact absurd (List.mem_cons_of_mem _ List.mem_cons_self) h
  | case5 c rest _ _ ih => rw [ih fun hrest => h (List.mem_cons_of_mem _ hrest), Option.map_some]

theorem trimMeasure_of_not_blank {t : Text} (h : ∀ c ∈ t, isMeasureBlank c = false) :
    trimMeasure t = t := by
  have hkeep : ∀ u : Text, (∀ c ∈ u, isMeasureBlank c = false) → u.dropWhile isMeasureBlank = u := by
    intro u hu
    cases u with
    | nil => rfl
    | cons c rest => rw [List.dropWhile_cons_of_neg (by rw [hu c List.mem_cons_self]; simp)]
  rw [trimMeasure, hkeep t h, hkeep t.reverse fun c hc => h c (List.mem_reverse.1 hc),
    List.reverse_reverse]

/-- A text that starts with a digit is the name of no infinity. -/
theorem map_toLower_ne {c d : Char} {t name : Text} (hc : c.isDigit = true) (hd : d.isDigit = false) :
    (c :: t).map Char.toLower ≠ d :: name := by
  have hsame : plainDigits.all (fun x => x.toLower == x) = true := by decide +kernel
  intro h
  rw [List.map_cons,
    eq_of_beq (List.all_eq_true.1 hsame c (mem_plainDigits_of_isDigit hc))] at h
  rw [(List.cons.inj h).1, hd] at hc
  exact absurd hc (by simp)

theorem IsMagnitude.literal_signed {t : Text} {value : ℚ} (h : IsMagnitude t value) (negative : Bool) :
    ∀ c ∈ (if negative then '-' :: t else t), isLiteralChar c = true := by
  cases negative with
  | true => exact List.forall_mem_cons.2 ⟨by decide, h.literal⟩
  | false => exact h.literal

/-- **A magnitude, with a minus sign or without one, is read as its value.** -/
theorem IsMagnitude.readMeasure? {t : Text} {value : ℚ} (h : IsMagnitude t value) (negative : Bool) :
    ∃ d : Decimal, LogoLang.readMeasure? (if negative then '-' :: t else t) = some d.toDouble ∧
      d.negative = negative ∧ d.magnitude = value := by
  obtain ⟨d, hread, hsign, hvalue⟩ := h.reads negative
  obtain ⟨c, rest, ht, hc⟩ := h.head
  have hplain (u : Text) (hu : ∀ c ∈ u, isLiteralChar c = true) :
      trimMeasure (u.map plainDigit) = u ∧ '_' ∉ u := by
    have hchars := fun c hc => isPlain_of_isLiteralChar (hu c hc)
    simp only [isPlain, Bool.and_eq_true, beq_iff_eq, Bool.not_eq_true', bne_iff_ne] at hchars
    rw [List.map_congr_left fun x hx => (hchars x hx).1.1, List.map_id']
    exact ⟨trimMeasure_of_not_blank fun x hx => (hchars x hx).1.2, fun hmem => (hchars _ hmem).2 rfl⟩
  have hgroup := dropGrouping?_of_not_mem (hplain t h.literal).2
  have hinf : t.map Char.toLower ≠ "inf".toList :=
    ht ▸ map_toLower_ne hc (by decide : 'i'.isDigit = false)
  have hinfinity : t.map Char.toLower ≠ "infinity".toList :=
    ht ▸ map_toLower_ne hc (by decide : 'i'.isDigit = false)
  have hnan : t.map Char.toLower ≠ "nan".toList :=
    ht ▸ map_toLower_ne hc (by decide : 'n'.isDigit = false)
  refine ⟨d, ?_, hsign, hvalue⟩
  unfold LogoLang.readMeasure?
  rw [(hplain _ (h.literal_signed negative)).1]
  cases negative with
  | true =>
    simp only [if_true, hinf, hinfinity, hnan, or_self, if_false, hgroup, Option.bind_eq_bind,
      Option.bind_some, hread, Option.pure_def]
  | false =>
    simp only [Bool.false_eq_true, if_false]
    split
    · cases ht
      exact absurd hc (by decide)
    · cases ht
      exact absurd hc (by decide)
    · simp only [hinf, hinfinity, hnan, or_self, if_false, hgroup, Option.bind_eq_bind,
        Option.bind_some, hread, Option.pure_def]

/-! ## Written decimals -/

/-- Digits end with zeros, after those that are significant. -/
theorem exists_zeros_end (t : Text) :
    ∃ zeros, t = (t.reverse.dropWhile (· == '0')).reverse ++ List.replicate zeros '0' := by
  have hzeros : t.reverse.takeWhile (· == '0') =
      List.replicate (t.reverse.takeWhile (· == '0')).length '0' :=
    List.eq_replicate_of_mem fun c hc =>
      eq_of_beq (List.mem_takeWhile_imp (p := (· == '0')) hc)
  refine ⟨(t.reverse.takeWhile (· == '0')).length, ?_⟩
  rw [← List.reverse_replicate, ← hzeros, ← List.reverse_append, List.takeWhile_append_dropWhile,
    List.reverse_reverse]

/-- The text of a decimal without its sign has its value, unless the power of ten is beyond those that
    are read. -/
theorem Decimal.exists_isMagnitude (d : Decimal)
    (hpower : d.digits ≠ 0 → (d.exponent + digitCount d.digits - 1).natAbs ≤ 400) :
    ∃ t, d.toText = (if d.negative then '-' :: t else t) ∧ IsMagnitude t d.magnitude := by
  refine ⟨_, rfl, ?_⟩
  split
  · next hzero =>
    have hmagnitude := isMagnitude_point (isDigits_zeros 2) Nat.one_pos (by decide)
    rwa [show Text.toNat (List.replicate 2 '0') = 0 from rfl, Nat.cast_zero, zero_mul,
      show (0 : ℚ) = d.magnitude by rw [Decimal.magnitude, hzero, Nat.cast_zero, zero_mul]]
      at hmagnitude
  · next hne =>
    obtain ⟨zeros, hzeros⟩ := exists_zeros_end (Text.ofNat d.digits)
    obtain ⟨significant, hsignificant⟩ : ∃ significant,
      ((Text.ofNat d.digits).reverse.dropWhile (· == '0')).reverse = significant := ⟨_, rfl⟩
    rw [hsignificant] at hzeros ⊢
    have hdigits : IsDigits significant := fun c hc =>
      Text.isDigits_ofNat d.digits c (hzeros ▸ List.mem_append_left _ hc)
    have hvalue : d.digits = 10 ^ zeros * Text.toNat significant := by
      rw [← Text.toNat_append_zeros, ← hzeros, Text.toNat_ofNat]
    have hlength : (Text.ofNat d.digits).length = significant.length + zeros := by
      rw [hzeros, List.length_append, List.length_replicate]
    have hsome : significant ≠ [] := by
      rintro rfl
      exact hne (hvalue.trans (Nat.mul_zero _))
    have hmagnitude : Text.toNat significant *
        (10 : ℚ) ^ (d.exponent + (Text.ofNat d.digits).length - 1 + 1 - significant.length) =
        d.magnitude := by
      rw [Decimal.magnitude, hlength, hvalue]
      push_cast
      rw [show d.exponent + (significant.length + zeros) - 1 + 1 - significant.length =
        zeros + d.exponent by ring, zpow_add₀ (by norm_num), zpow_natCast]
      ring
    rw [← hmagnitude]
    split
    · exact isMagnitude_positional hdigits _
    · exact isMagnitude_scientific hdigits hsome (hpower hne)

/-- **A written decimal is read as the double nearest to it.** -/
theorem Decimal.readMeasure?_toText (d : Decimal)
    (hpower : d.digits ≠ 0 → (d.exponent + digitCount d.digits - 1).natAbs ≤ 400) :
    readMeasure? d.toText = some d.toDouble := by
  obtain ⟨t, ht, hmagnitude⟩ := d.exists_isMagnitude hpower
  obtain ⟨d', hread, hsign, hvalue⟩ := hmagnitude.readMeasure? d.negative
  rw [ht, hread, Decimal.toDouble_congr hsign hvalue]

/-! ## Written doubles -/

theorem two_zpow_le_ten_zpow (k : Nat) : (2 : ℚ) ^ ((3 * k : Nat) : Int) ≤ 10 ^ (k : Int) := by
  rw [zpow_natCast, zpow_natCast, pow_mul]
  gcongr
  norm_num

/-- The first digit of a double is not far from the point. -/
theorem decimalMagnitude_double {significand num den : Nat} {exponent : Int}
    (h : BinaryFormat.double.Canonical significand exponent) (hne : significand ≠ 0) (hden : 0 < den)
    (hvalue : (num / den : ℚ) = significand * 2 ^ exponent) :
    -360 < decimalMagnitude num den ∧ decimalMagnitude num den < 360 := by
  have hone : (1 : ℚ) ≤ significand := by exact_mod_cast Nat.one_le_iff_ne_zero.2 hne
  have hlt : (significand : ℚ) < 2 ^ (53 : Int) := by exact_mod_cast h.lt
  have hmin : (-1074 : Int) ≤ exponent := h.min_le
  have hmax : exponent ≤ (971 : Int) := h.le_max
  have hnum : num ≠ 0 := by
    rintro rfl
    have hpos : (0 : ℚ) < significand * 2 ^ exponent := by positivity
    rw [← hvalue, Nat.cast_zero, zero_div] at hpos
    exact lt_irrefl _ hpos
  obtain ⟨hlow, hhigh⟩ := decimalMagnitude_bounds hnum hden
  rw [hvalue] at hlow hhigh
  have hpow := two_zpow_le_ten_zpow 359
  have hten : (1 : ℚ) < 10 := by norm_num
  have hbelow : -(359 : Nat) < decimalMagnitude num den + 1 := by
    refine (zpow_lt_zpow_iff_right₀ hten).1 (lt_of_le_of_lt ?_ hhigh)
    calc (10 : ℚ) ^ (-((359 : Nat) : Int)) ≤ 2 ^ (-((3 * 359 : Nat) : Int)) := by
          rw [zpow_neg, zpow_neg]
          exact inv_anti₀ (zpow_pos two_pos _) hpow
      _ ≤ 2 ^ exponent := zpow_le_zpow_right₀ one_le_two (by omega)
      _ ≤ significand * 2 ^ exponent := le_mul_of_one_le_left (by positivity) hone
  have habove : decimalMagnitude num den < (359 : Nat) := by
    refine (zpow_lt_zpow_iff_right₀ hten).1 (lt_of_le_of_lt hlow ?_)
    calc (significand * 2 ^ exponent : ℚ) < 2 ^ (53 : Int) * 2 ^ exponent := by gcongr
      _ = 2 ^ (53 + exponent) := (zpow_add₀ two_ne_zero _ _).symm
      _ ≤ 2 ^ ((3 * 359 : Nat) : Int) := zpow_le_zpow_right₀ one_le_two (by omega)
      _ ≤ 10 ^ ((359 : Nat) : Int) := hpow
  omega

/-- A decimal on the grid of its number of digits has its first digit where the quotient has it, or one
    place before. -/
theorem ReadsBack.power_bounds {x : Float} {negative : Bool} {num den : Nat} {d : Decimal}
    (h : ReadsBack x negative num den d) :
    decimalMagnitude num den ≤ d.exponent + digitCount d.digits - 1 ∧
      d.exponent + digitCount d.digits - 1 ≤ decimalMagnitude num den + 1 := by
  obtain ⟨count, hexponent, hlow, hhigh⟩ := h.grid
  have hne : d.digits ≠ 0 := by
    have hpos := Nat.pow_pos (n := count) (show 0 < 10 by decide)
    omega
  obtain ⟨below, hbelow⟩ := Nat.exists_eq_add_of_lt (digitCount_pos d.digits)
  rw [Nat.zero_add] at hbelow
  have hmore : count < below + 1 := by
    refine (Nat.pow_lt_pow_iff_right (by decide : 1 < 10)).1 (Nat.lt_of_le_of_lt hlow ?_)
    exact hbelow ▸ lt_pow_digitCount d.digits
  have hless : below ≤ count + 1 :=
    (Nat.pow_le_pow_iff_right (by decide : 1 < 10)).1
      (Nat.le_trans (pow_le_of_digitCount hne hbelow) hhigh)
  omega

/-- The shortest decimal of a finite double reads back as the double, and is written with a power of ten
    that is read. -/
theorem shortestDecimal_reads {x : Float} {negative : Bool} {significand : Nat} {exponent : Int}
    (hx : FloatParts.ofFloat x = .finite negative significand exponent) :
    let d := shortestDecimal negative significand exponent
    d.toDouble = x ∧ (d.digits ≠ 0 → (d.exponent + digitCount d.digits - 1).natAbs ≤ 400) := by
  by_cases hzero : significand = 0
  · have hdecimal : shortestDecimal negative significand exponent = ⟨negative, 0, 0⟩ := by
      rw [shortestDecimal, if_pos hzero]
    have hvalue : (Decimal.mk negative 0 0).magnitude = (0 : Nat) / (1 : Nat) := by
      rw [Decimal.magnitude, Nat.cast_zero, zero_mul, zero_div]
    have hdouble : ((0 : Nat) / (1 : Nat) : ℚ) = significand * 2 ^ exponent := by
      rw [hzero, Nat.cast_zero, zero_div, zero_mul]
    rw [hdecimal]
    refine ⟨?_, fun hne => absurd rfl hne⟩
    rw [Decimal.toDouble_eq Nat.one_pos hvalue, nearestDouble_of_parts hx Nat.one_pos hdouble]
  · have hreads := readsBack_shortestDecimal hx hzero
    have hbounds := decimalMagnitude_double (BinaryFormat.canonical_of_parts hx) hzero
      (dyadicQuotient_snd_pos _ _) (dyadicQuotient_value significand exponent)
    have hpower := hreads.power_bounds
    exact ⟨hreads.toDouble_eq, fun _ => by omega⟩

/-- A finite double is written as a magnitude, with a sign or without one. -/
theorem exists_isMagnitude_ofDouble {x : Float} (h : isFinite x = true) :
    ∃ (negative : Bool) (t : Text) (value : ℚ),
      Text.ofDouble x = (if negative then '-' :: t else t) ∧ IsMagnitude t value := by
  obtain ⟨negative, significand, exponent, hx⟩ := exists_parts_of_isFinite h
  obtain ⟨t, ht, hmagnitude⟩ := Decimal.exists_isMagnitude _ (shortestDecimal_reads hx).2
  refine ⟨(shortestDecimal negative significand exponent).negative, t, _, ?_, hmagnitude⟩
  unfold Text.ofDouble
  rw [hx]
  exact ht

/-- **A written double is read as this double**, also an infinity and what is no number. -/
theorem readMeasure?_ofDouble (x : Float) : readMeasure? (Text.ofDouble x) = some x := by
  have hx := FloatParts.toFloat_ofFloat x
  unfold Text.ofDouble
  cases hparts : FloatParts.ofFloat x with
  | notANumber =>
    rw [hparts] at hx
    rw [← hx]
    rfl
  | infinite negative =>
    rw [hparts] at hx
    rw [← hx]
    cases negative <;> rfl
  | finite negative significand exponent =>
    obtain ⟨hdouble, hpower⟩ := shortestDecimal_reads hparts
    simp only
    rw [Decimal.readMeasure?_toText _ hpower, hdouble]

/-- Different doubles are written differently. -/
theorem Text.ofDouble_injective : Function.Injective Text.ofDouble := by
  intro x y h
  have hx := readMeasure?_ofDouble x
  rw [h, readMeasure?_ofDouble y] at hx
  exact (Option.some.inj hx).symm

end LogoLang
