set_option autoImplicit false

/-! # Rounding of exact quotients

Numbers are rounded here in exact natural-number arithmetic. A positive rational is given as a
numerator and a denominator; `roundHalfEven` takes it to a neighbouring natural number, and
`BinaryFormat.round` and `roundToDigits` take it to a binary and to a decimal floating-point
number. In all of them the nearer neighbour wins, and of two equally near ones the even one. -/

namespace LogoLang

/-- The natural number nearest to `num / den`; a half goes to the even neighbour. -/
def roundHalfEven (num den : Nat) : Nat :=
  let quotient := num / den
  let remainder := num % den
  if 2 * remainder < den ∨ (2 * remainder = den ∧ quotient % 2 = 0) then quotient
  else quotient + 1

/-- The quotient `num / den` times `base ^ exponent`, again as numerator and denominator. -/
def scaleQuotient (base num den : Nat) (exponent : Int) : Nat × Nat :=
  (num * Nat.pow base exponent.toNat, den * Nat.pow base (-exponent).toNat)

/-- The exponent `k` with `base ^ k ≤ num / den < base ^ (k + 1)`, found from an upper bound of `k`
that is at most one too large. -/
def floorLog (base num den : Nat) (upper : Int) : Int :=
  let (n, d) := scaleQuotient base num den (-upper)
  if n < d then upper - 1 else upper

/-! ## Binary floating point -/

/-- A binary floating-point format: the numbers `m * 2 ^ e` with `m < 2 ^ precision` and
`minExponent ≤ e ≤ maxExponent`. -/
structure BinaryFormat where
  precision : Nat
  minExponent : Int
  maxExponent : Int

/-- Double precision. -/
def BinaryFormat.double : BinaryFormat := ⟨53, -1074, 971⟩

/-- Single precision. -/
def BinaryFormat.single : BinaryFormat := ⟨24, -149, 104⟩

/-- The significand and exponent nearest to `num / den`, with the full precision unless the exponent
is the least one; `none` when that is beyond the largest number of the format. -/
def BinaryFormat.round (format : BinaryFormat) (num den : Nat) : Option (Nat × Int) :=
  if num = 0 then some (0, format.minExponent)
  else
    let magnitude := floorLog 2 num den ((num.log2 : Int) - den.log2)
    let exponent := max (magnitude + 1 - format.precision) format.minExponent
    let (n, d) := scaleQuotient 2 num den (-exponent)
    let significand := roundHalfEven n d
    let (significand, exponent) :=
      if significand = Nat.pow 2 format.precision then
        (Nat.pow 2 (format.precision - 1), exponent + 1)
      else (significand, exponent)
    if exponent ≤ format.maxExponent then some (significand, exponent) else none

/-! ## Decimal floating point -/

/-- The number of decimal digits of `n`. -/
def digitCount (n : Nat) : Nat := (Nat.toDigits 10 n).length

/-- The exponent `k` with `10 ^ k ≤ num / den < 10 ^ (k + 1)`. -/
def decimalMagnitude (num den : Nat) : Int :=
  floorLog 10 num den ((digitCount num : Int) - digitCount den)

/-- The decimal number `digits * 10 ^ exponent` with `count` digits that is nearest to `num / den`. -/
def roundToDigits (count num den : Nat) : Nat × Int :=
  if num = 0 then (0, 0)
  else
    let exponent := decimalMagnitude num den + 1 - count
    let (n, d) := scaleQuotient 10 num den (-exponent)
    let digits := roundHalfEven n d
    if digits = Nat.pow 10 count then (Nat.pow 10 (count - 1), exponent + 1)
    else (digits, exponent)

end LogoLang
