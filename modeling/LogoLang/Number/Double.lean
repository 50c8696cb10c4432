import LogoLang.Number.Rounding

set_option autoImplicit false

/-! # Double precision numbers and their parts

The value of a `Float` as sign, significand and exponent, and the `Float` nearest to an exact
quotient. The two directions go through the bits of the number, so that every function here has a
meaning in the logic. -/

namespace LogoLang

/-! ## Parts -/

/-- What the bits of a double say: no number, an infinity, or `± significand * 2 ^ exponent`. -/
inductive FloatParts where
  | notANumber
  | infinite (negative : Bool)
  | finite (negative : Bool) (significand : Nat) (exponent : Int)
deriving DecidableEq, Repr

/-- The weight of the exponent in the bits, which is also the leading bit of a significand. -/
def leadingBit : Nat := 0x10000000000000

/-- The weight of the sign in the bits. -/
def signWeight : Nat := 0x8000000000000000

/-- The number of values of the exponent in the bits; the greatest one marks what is not finite. -/
def exponentValues : Nat := 0x800

/-- The parts of a double. The significand of a number that is not subnormal has its leading bit. -/
def FloatParts.ofFloat (x : Float) : FloatParts :=
  let bits : Nat := x.toBits.toNat
  let negative := decide (bits / signWeight = 1)
  let field : Nat := bits / leadingBit % exponentValues
  let fraction : Nat := bits % leadingBit
  if field + 1 = exponentValues then
    if fraction = 0 then .infinite negative else .notANumber
  else if field = 0 then .finite negative fraction BinaryFormat.double.minExponent
  else .finite negative (leadingBit + fraction) ((field : Int) - 1075)

/-- The bit of the sign. -/
def signBit (negative : Bool) : Nat := if negative then signWeight else 0

/-- The double with the given parts. A finite number has to be in the form of
`BinaryFormat.double.round`: a significand below the leading bit goes with the least exponent only. -/
def FloatParts.toFloat : FloatParts → Float
  | .notANumber => Float.ofBits 0x7ff8000000000000
  | .infinite negative => Float.ofBits (UInt64.ofNat (signBit negative + 0x7ff0000000000000))
  | .finite negative significand exponent =>
    let magnitude :=
      if significand < leadingBit then significand
      else (exponent + 1075).toNat * leadingBit + (significand - leadingBit)
    Float.ofBits (UInt64.ofNat (signBit negative + magnitude))

/-- The magnitude `significand * 2 ^ exponent` as a quotient. -/
def dyadicQuotient (significand : Nat) (exponent : Int) : Nat × Nat :=
  scaleQuotient 2 significand 1 exponent

/-! ## Rounding to a double -/

/-- The infinity of a sign. -/
def infinity (negative : Bool) : Float := FloatParts.toFloat (.infinite negative)

/-- The double nearest to `± num / den`, or `none` when that is out of range. -/
def nearestDouble? (negative : Bool) (num den : Nat) : Option Float :=
  (BinaryFormat.double.round num den).map fun (significand, exponent) =>
    FloatParts.toFloat (.finite negative significand exponent)

/-- The double nearest to `± num / den`, an infinity when that is out of range. -/
def nearestDouble (negative : Bool) (num den : Nat) : Float :=
  (nearestDouble? negative num den).getD (infinity negative)

/-- The double nearest to `n / den`, or `none` when that is out of range. -/
def doubleOfQuotient? (n : Int) (den : Nat) : Option Float :=
  nearestDouble? (n < 0) n.natAbs den

/-- The double nearest to an integer, or `none` when that is out of range. -/
def doubleOfInt? (n : Int) : Option Float := doubleOfQuotient? n 1

/-! ## Whole numbers -/

/-- The integer that a double is equal to, if there is one. -/
def integerOf? (x : Float) : Option Int :=
  match FloatParts.ofFloat x with
  | .finite negative significand exponent =>
    let (num, den) := dyadicQuotient significand exponent
    if num % den = 0 then
      some (if negative then -(num / den : Nat) else (num / den : Nat))
    else none
  | _ => none

/-- Whether a double is finite. -/
def isFinite (x : Float) : Bool :=
  match FloatParts.ofFloat x with
  | .finite .. => true
  | _ => false

end LogoLang
