import LogoLang.Number.Single
import LogoLang.Text.Basic

set_option autoImplicit false

/-! # Decimals that read back

A finite double is written with as few digits as read back to it. `shortestDigits` searches the
decimal grids of one, two, three, … digits for a number that reads back as the given one, and the
first grid that has one wins. The search ends at the latest where the grid holds the exact value of
the double. -/

namespace LogoLang

/-- A decimal number `± digits * 10 ^ exponent`. -/
structure Decimal where
  negative : Bool
  digits : Nat
  exponent : Int
deriving DecidableEq, Repr

/-- A decimal as a quotient, without its sign. -/
def Decimal.quotient (d : Decimal) : Nat × Nat := scaleQuotient 10 d.digits 1 d.exponent

/-- The double nearest to a decimal. -/
def Decimal.toDouble (d : Decimal) : Float :=
  let (num, den) := d.quotient
  nearestDouble d.negative num den

/-! ## Digits of a double -/

/-- The one of the two `count`-digit neighbours of `num / den` that reads back as `x`, the nearer one
if both do. -/
def neighbourReadingBack? (x : Float) (negative : Bool) (num den count : Nat) : Option Decimal :=
  let exponent := decimalMagnitude num den + 1 - count
  let (n, d) := scaleQuotient 10 num den (-exponent)
  let below : Decimal := ⟨negative, n / d, exponent⟩
  let above : Decimal := ⟨negative, n / d + 1, exponent⟩
  let nearest : Decimal := ⟨negative, roundHalfEven n d, exponent⟩
  if nearest.toDouble = x then some nearest
  else if below.toDouble = x then some below
  else if above.toDouble = x then some above
  else none

/-- The first of the digit counts from `count` on that has a decimal reading back as `x`; after
`fuel` counts the search stops. -/
def searchDigits (x : Float) (negative : Bool) (num den : Nat) : Nat → Nat → Option Decimal
  | 0, _ => none
  | fuel + 1, count =>
    (neighbourReadingBack? x negative num den count).or
      (searchDigits x negative num den fuel (count + 1))

/-- The shortest decimal that reads back as the finite double `± significand * 2 ^ exponent`, and of
those the nearest one. No more digits are tried than write the double exactly. -/
def shortestDecimal (negative : Bool) (significand : Nat) (exponent : Int) : Decimal :=
  if significand = 0 then ⟨negative, 0, 0⟩
  else
    let (num, den) := dyadicQuotient significand exponent
    let exactDigits := (decimalMagnitude num den + 1 - min exponent 0).toNat
    let x := nearestDouble negative num den
    (searchDigits x negative num den exactDigits 1).getD ⟨negative, significand, 0⟩

/-! ## The written form -/

/-- A decimal number in positional notation with at least one digit on either side of the point, the
point standing after the first `point` digits. -/
def positional (digits : Text) (point : Int) : Text :=
  let missing := (1 - point).toNat
  let padded := List.replicate missing '0' ++ digits
  let whole := (point + missing).toNat
  let padded := padded ++ List.replicate (whole + 1 - padded.length) '0'
  padded.take whole ++ '.' :: padded.drop whole

/-- A decimal number with one digit before the point and a power of ten, whose exponent has a sign
and at least two digits. The point is left out when no digit follows it. -/
def scientific (digits : Text) (power : Int) : Text :=
  let fraction := digits.drop 1
  let exponent := Text.ofNat power.natAbs
  digits.take 1 ++ (if fraction.isEmpty then [] else '.' :: fraction)
    ++ ['e', if power < 0 then '-' else '+'] ++ List.replicate (2 - exponent.length) '0' ++ exponent

/-- The written form of a decimal: positional when its first digit stands for at least `10 ^ -4` and
less than `10 ^ 16`, with a power of ten otherwise. -/
def Decimal.toText (d : Decimal) : Text :=
  let digits := Text.ofNat d.digits
  let power := d.exponent + digits.length - 1
  let significant := (digits.reverse.dropWhile (· == '0')).reverse
  let magnitude :=
    if d.digits = 0 then ['0', '.', '0']
    else if -4 ≤ power ∧ power < 16 then positional significant (power + 1)
    else scientific significant power
  if d.negative then '-' :: magnitude else magnitude

/-- The written form of a double: the fewest digits that read back. What is no number has no sign. -/
def Text.ofDouble (x : Float) : Text :=
  match FloatParts.ofFloat x with
  | .notANumber => "nan".toList
  | .infinite negative => if negative then "-inf".toList else "inf".toList
  | .finite negative significand exponent =>
    (shortestDecimal negative significand exponent).toText

/-! ## Short forms of single precision -/

/-- The double nearest to the decimal of `count` digits that is nearest to a finite double. -/
def roundSignificant (count : Nat) (x : Float) : Float :=
  match FloatParts.ofFloat x with
  | .finite negative significand exponent =>
    let (num, den) := dyadicQuotient significand exponent
    let (digits, exponent) := roundToDigits count num den
    Decimal.toDouble ⟨negative, digits, exponent⟩
  | _ => x

/-- The double that stands for a number of single precision in writing: of the roundings to one to
seventeen digits, the first one that rounds back to the number. A double that is not of single
precision stands for itself. -/
def shortForSingle (x : Float) : Float :=
  ((List.range' 1 17).findSome? fun count =>
    let short := roundSignificant count x
    if single short = x then some short else none).getD x

/-! ## Fixed places -/

/-- A double with exactly three digits after the point, rounded from its exact value. -/
def Text.ofDoubleFixed (x : Float) : Text :=
  match FloatParts.ofFloat x with
  | .finite negative significand exponent =>
    let (num, den) := dyadicQuotient significand exponent
    let thousandths := Text.ofNat (roundHalfEven (1000 * num) den)
    let padded := List.replicate (4 - thousandths.length) '0' ++ thousandths
    let whole := padded.length - 3
    let magnitude := padded.take whole ++ '.' :: padded.drop whole
    if negative then '-' :: magnitude else magnitude
  | _ => Text.ofDouble x

end LogoLang
