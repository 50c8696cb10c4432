import LogoLang.Number.Decimal
import LogoLang.Text.Blank

set_option autoImplicit false

/-! # Reading numbers

Two grammars for written numbers. `Decimal.ofLiteral?` reads the literals of a program: a minus sign,
digits, and a point. `readMeasure?` reads a number given to a command-line tool, where also a plus
sign, a power of ten, grouping underscores, the names of the infinities, the digits of other scripts,
and blanks at either end are allowed. -/

namespace LogoLang

/-! ## Literals -/

/-- Digits with at most one point among them: the number without the point, and how many digits
follow the point. At least one digit is needed. -/
def readUnsigned? (t : Text) : Option (Nat × Nat) :=
  let whole := t.takeWhile Char.isDigit
  match t.dropWhile Char.isDigit with
  | [] => if whole.isEmpty then none else some (Text.toNat whole, 0)
  | '.' :: fraction =>
    if fraction.all Char.isDigit && !(whole ++ fraction).isEmpty then
      some (Text.toNat (whole ++ fraction), fraction.length)
    else none
  | _ :: _ => none

/-- The decimal that a literal writes: an unsigned number, or one after a minus sign. -/
def Decimal.ofLiteral? : Text → Option Decimal
  | '-' :: rest => (readUnsigned? rest).map fun (digits, places) => ⟨true, digits, -places⟩
  | t => (readUnsigned? t).map fun (digits, places) => ⟨false, digits, -places⟩

/-- The number of single precision that a literal stands for: the decimal is rounded to double
precision, and the result to single precision. -/
def singleOfLiteral? (t : Text) : Option Float :=
  (Decimal.ofLiteral? t).map fun d => single d.toDouble

/-! ## Measures -/

/-- The code points of the digit zero in the scripts that have decimal digits of their own. -/
def zeroDigits : List Nat := [
  0x30, 0x660, 0x6f0, 0x7c0, 0x966, 0x9e6, 0xa66, 0xae6, 0xb66, 0xbe6, 0xc66, 0xce6, 0xd66, 0xde6,
  0xe50, 0xed0, 0xf20, 0x1040, 0x1090, 0x17e0, 0x1810, 0x1946, 0x19d0, 0x1a80, 0x1a90, 0x1b50,
  0x1bb0, 0x1c40, 0x1c50, 0xa620, 0xa8d0, 0xa900, 0xa9d0, 0xa9f0, 0xaa50, 0xabf0, 0xff10, 0x104a0,
  0x10d30, 0x11066, 0x110f0, 0x11136, 0x111d0, 0x112f0, 0x11450, 0x114d0, 0x11650, 0x116c0,
  0x11730, 0x118e0, 0x11950, 0x11c50, 0x11d50, 0x11da0, 0x16a60, 0x16ac0, 0x16b50, 0x1d7ce,
  0x1d7d8, 0x1d7e2, 0x1d7ec, 0x1d7f6, 0x1e140, 0x1e2f0, 0x1e950, 0x1fbf0]

/-- A decimal digit of any script as a digit from `0` to `9`; other characters stay. -/
def plainDigit (c : Char) : Char :=
  match zeroDigits.find? fun first => first ≤ c.toNat && c.toNat < first + 10 with
  | some first => Char.ofNat ('0'.toNat + (c.toNat - first))
  | none => c

/-- A blank that may stand around a measure: every white space of Unicode but the four information
separators. -/
def isMeasureBlank (c : Char) : Bool := isBlank c && !(28 ≤ c.toNat && c.toNat ≤ 31)

/-- The text without the blanks around a measure. -/
def trimMeasure (t : Text) : Text :=
  ((t.dropWhile isMeasureBlank).reverse.dropWhile isMeasureBlank).reverse

/-- Removes the underscores of a text, each of which has to stand between two digits. -/
def dropGrouping? : Text → Option Text
  | [] => some []
  | '_' :: _ => none
  | c :: '_' :: d :: rest =>
    if c.isDigit && d.isDigit then (dropGrouping? (d :: rest)).map (c :: ·) else none
  | c :: rest => (dropGrouping? rest).map (c :: ·)

/-- An integer with an optional sign of either kind. -/
def readSigned? (t : Text) : Option Int :=
  let (negative, digits) := match t with
    | '-' :: rest => (true, rest)
    | '+' :: rest => (false, rest)
    | _ => (false, t)
  if digits.isEmpty || !digits.all Char.isDigit then none
  else some (if negative then -(Text.toNat digits : Int) else Text.toNat digits)

/-- An unsigned number with an optional power of ten, as a decimal of the given sign. A power beyond
`400` places around the digits is cut down to that: the number is out of range of a double, or
rounds to zero, either way. -/
def readScaled? (negative : Bool) (t : Text) : Option Decimal :=
  let isMark := fun c => c == 'e' || c == 'E'
  let mantissa := t.takeWhile (!isMark ·)
  match readUnsigned? mantissa, t.dropWhile (!isMark ·) with
  | some (digits, places), [] => some ⟨negative, digits, -places⟩
  | some (digits, places), _ :: power =>
    (readSigned? power).map fun power =>
      let bound : Int := 400 + mantissa.length
      ⟨negative, digits, max (-bound) (min bound power) - places⟩
  | none, _ => none

/-- The double that a text given as a number stands for. -/
def readMeasure? (t : Text) : Option Float :=
  let t := trimMeasure (t.map plainDigit)
  let (negative, magnitude) := match t with
    | '-' :: rest => (true, rest)
    | '+' :: rest => (false, rest)
    | _ => (false, t)
  let name := magnitude.map Char.toLower
  if name = "inf".toList ∨ name = "infinity".toList then some (infinity negative)
  else if name = "nan".toList then some FloatParts.notANumber.toFloat
  else do
    let plain ← dropGrouping? magnitude
    let decimal ← readScaled? negative plain
    return decimal.toDouble

end LogoLang
