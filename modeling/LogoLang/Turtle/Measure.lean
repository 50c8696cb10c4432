import LogoLang.Number.Decimal

set_option autoImplicit false

/-! # Measures

The width and the height of a canvas, which may be given as whole numbers or as real ones. The two
are kept apart because they are written differently. -/

namespace LogoLang

/-- A length on the canvas. -/
inductive Measure where
  | whole (n : Int)
  | real (x : Float)
deriving DecidableEq

/-- A measure as it is written: a whole number without a point. -/
def Measure.toText : Measure → Text
  | .whole n => Text.ofInt n
  | .real x => Text.ofDouble x

/-- Half of a measure as a double, or `none` when that is out of range. -/
def Measure.half? : Measure → Option Float
  | .whole n => doubleOfQuotient? n 2
  | .real x => some (x / 2)

/-- The measure of a canvas when none is given. -/
def Measure.default : Measure := .whole 400

end LogoLang
