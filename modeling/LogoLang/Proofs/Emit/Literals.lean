import LogoLang.Emit.Expression
import LogoLang.Proofs.Number.ReadBack
import LogoLang.Proofs.Number.ShortForm

set_option autoImplicit false

/-! # Emitted number literals

The code of a number stands for this number (`numberCode_exact`): read as the target language reads it
(`literalValue?`), it is the number itself, with the sign of a zero and with infinities, and its digits
are the fewest that single precision takes back to it. -/

namespace LogoLang

/-! ## What a literal stands for -/

/-- The text between an opening and a closing one. -/
def inside? (opening closing code : Text) : Option Text :=
  (code.dropPrefix? opening).bind (·.dropSuffix? closing)

theorem inside?_eq_some_iff {opening closing code t : Text} :
    inside? opening closing code = some t ↔ code = opening ++ (t ++ closing) := by
  simp only [inside?, Option.bind_eq_some_iff, List.dropPrefix?_eq_some_iff,
    List.dropSuffix?_eq_some_iff, beq_iff_eq]
  grind

/-- What code without a call stands for: the double nearest to the number that it writes. -/
def plainValue? (code : Text) : Option Float :=
  if code.all isLiteralChar then readMeasure? code else none

/-- What the code of a number stands for in the target language: `_f32` rounds a literal to single
    precision, and `float` makes a number of a text in quotes. -/
def literalValue? (code : Text) : Option Float :=
  match inside? "_f32(".toList [')'] code, inside? "float('".toList "')".toList code with
  | some literal, _ => (plainValue? literal).map single
  | none, some t => readMeasure? t
  | none, none => plainValue? code

theorem inside?_eq_none {opening closing code : Text} (h : ¬ opening <+: code) :
    inside? opening closing code = none := by
  refine Option.eq_none_iff_forall_not_mem.2 fun t ht => h ?_
  rw [inside?_eq_some_iff.1 ht]
  exact List.prefix_append _ _

/-- Code that begins with no call is a literal alone. -/
theorem literalValue?_of_no_call {code : Text} (hrounded : ¬ "_f32(".toList <+: code)
    (hcall : ¬ "float('".toList <+: code) : literalValue? code = plainValue? code := by
  simp only [literalValue?, inside?_eq_none hrounded, inside?_eq_none hcall]

theorem literalValue?_plain {code : Text} (h : code.all isLiteralChar = true) :
    literalValue? code = plainValue? code := by
  have hchars := List.all_eq_true.1 h
  refine literalValue?_of_no_call (fun hbegins => ?_) fun hbegins => ?_
  · exact absurd (hchars '_' (hbegins.subset (by decide))) (by decide)
  · exact absurd (hchars 'f' (hbegins.subset (by decide))) (by decide)

theorem literalValue?_roundedCode (code : Text) :
    literalValue? (roundedCode code) = (plainValue? code).map single := by
  have hrounded : inside? "_f32(".toList [')'] (roundedCode code) = some code :=
    inside?_eq_some_iff.2 rfl
  simp only [literalValue?, hrounded]

theorem literalValue?_float (t : Text) :
    literalValue? ("float(".toList ++ '\'' :: t ++ "')".toList) = readMeasure? t := by
  have hrounded : ¬ "_f32(".toList <+: "float(".toList ++ '\'' :: t ++ "')".toList := by simp
  have hcall : inside? "float('".toList "')".toList ("float(".toList ++ '\'' :: t ++ "')".toList) =
      some t := inside?_eq_some_iff.2 rfl
  simp only [literalValue?, inside?_eq_none hrounded, hcall]

/-! ## Numbers of single precision -/

/-- What is rounded to a finite number is finite. -/
theorem isFinite_of_isFinite_single {x : Float} (h : isFinite (single x) = true) :
    isFinite x = true := by
  unfold isFinite single at *
  cases hx : FloatParts.ofFloat x with
  | notANumber | infinite => simp [hx] at h
  | finite => rfl

/-- Only a zero is equal to a double that it is not, and a zero is its own rounding. -/
theorem eq_of_beq_of_single {x y : Float} (hbeq : (x == y) = true) (hsingle : single x = y) : x = y := by
  have hzero : single 0 = 0 := by decide +kernel
  have hminus : single (-0) = -0 := by decide +kernel
  obtain ⟨_, _, heq | ⟨hx, _⟩ | ⟨hx, _⟩⟩ := Float.beq_iff_ne_nan_and_eq.1 hbeq
  · exact heq
  · rw [← hsingle, hx, hzero]
  · rw [← hsingle, hx, hminus]

section Single

variable {x : Float}

/-- The short form of a number is rounded to this number. -/
theorem IsSingle.single_shortForSingle (hsingle : IsSingle x) (hfinite : isFinite x = true) :
    single (shortForSingle x) = x := by
  obtain ⟨_, _, _, hshort, hback, _⟩ := hsingle.exists_shortForSingle hfinite
  rw [hshort, hback]

theorem IsSingle.isFinite_shortForSingle (hsingle : IsSingle x) (hfinite : isFinite x = true) :
    isFinite (shortForSingle x) = true := by
  refine isFinite_of_isFinite_single ?_
  rw [hsingle.single_shortForSingle hfinite]
  exact hfinite

theorem shortCode_of_isFinite (hfinite : isFinite x = true) :
    shortCode x = Text.ofDouble (shortForSingle x) := if_pos hfinite

/-- The digits of a finite number are a literal for its short form. -/
theorem IsSingle.isLiteral_shortCode (hsingle : IsSingle x) (hfinite : isFinite x = true) :
    (shortCode x).all isLiteralChar = true := by
  obtain ⟨negative, t, value, htext, hmagnitude⟩ :=
    exists_isMagnitude_ofDouble (hsingle.isFinite_shortForSingle hfinite)
  rw [shortCode_of_isFinite hfinite, htext]
  exact List.all_eq_true.2 (hmagnitude.literal_signed negative)

theorem IsSingle.plainValue?_shortCode (hsingle : IsSingle x) (hfinite : isFinite x = true) :
    plainValue? (shortCode x) = some (shortForSingle x) := by
  rw [plainValue?, if_pos (hsingle.isLiteral_shortCode hfinite), shortCode_of_isFinite hfinite,
    readMeasure?_ofDouble]

/-- **The code of a number stands for this number**, also for an infinity. -/
theorem IsSingle.literalValue?_numberCode (hsingle : IsSingle x) :
    literalValue? (numberCode x) = some x := by
  by_cases hfinite : isFinite x = true
  · have hliteral := hsingle.isLiteral_shortCode hfinite
    have hvalue := hsingle.plainValue?_shortCode hfinite
    have hback := hsingle.single_shortForSingle hfinite
    rw [numberCode, hfinite, Bool.not_true, Bool.false_or]
    split
    · next hbeq => rw [literalValue?_plain hliteral, hvalue, eq_of_beq_of_single hbeq hback]
    · rw [literalValue?_roundedCode, hvalue, Option.map_some, hback]
  · rw [Bool.not_eq_true] at hfinite
    have hcode : numberCode x = "float(".toList ++ '\'' :: Text.ofDouble x ++ "')".toList := by
      simp [numberCode, shortCode, hfinite]
    rw [hcode, literalValue?_float, readMeasure?_ofDouble]

end Single

/-! ## Emitted literals -/

/-- **A number literal is emitted exactly.** Its code stands for the number itself. The digits of a
    finite number, read as a double and rounded to single precision, are the number, and they are those
    of the rounding to the fewest digits that gives the number back. -/
theorem numberCode_exact {x : Float} (hsingle : IsSingle x) :
    literalValue? (numberCode x) = some x ∧
      (isFinite x = true →
        (readMeasure? (shortCode x)).map single = some x ∧
        ∃ count, 1 ≤ count ∧ count ≤ 17 ∧ shortCode x = Text.ofDouble (roundSignificant count x) ∧
          single (roundSignificant count x) = x ∧
          ∀ fewer, 1 ≤ fewer → fewer < count → single (roundSignificant fewer x) ≠ x) := by
  refine ⟨hsingle.literalValue?_numberCode, fun hfinite => ⟨?_, ?_⟩⟩
  · rw [shortCode_of_isFinite hfinite, readMeasure?_ofDouble, Option.map_some,
      hsingle.single_shortForSingle hfinite]
  · obtain ⟨count, hpos, hnine, hshort, hback, hfewer⟩ := hsingle.exists_shortForSingle hfinite
    refine ⟨count, hpos, Nat.le_trans hnine (by decide), ?_, hback, hfewer⟩
    rw [shortCode_of_isFinite hfinite, hshort]

/-- The number of single precision that is nearest to a tenth. -/
theorem numberCode_exact_tenth :
    let tenth := Float.ofBits 0x3fb99999a0000000
    IsSingle tenth ∧ isFinite tenth = true ∧ literalValue? (numberCode tenth) = some tenth ∧
      (readMeasure? (shortCode tenth)).map single = some tenth := by
  have hsingle : IsSingle (Float.ofBits 0x3fb99999a0000000) := by decide +kernel
  have hfinite : isFinite (Float.ofBits 0x3fb99999a0000000) = true := by decide +kernel
  obtain ⟨hcode, hshort⟩ := numberCode_exact hsingle
  exact ⟨hsingle, hfinite, hcode, (hshort hfinite).1⟩

example : numberCode (Float.ofBits 0x3fb99999a0000000) = "_f32(0.1)".toList := by decide +kernel

end LogoLang
