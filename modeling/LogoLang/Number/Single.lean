import LogoLang.Number.Double

set_option autoImplicit false

/-! # Single precision

The numbers of a program have single precision, but are held as doubles. `single` rounds a double to
the nearest number of single precision. -/

namespace LogoLang

/-- The number of single precision nearest to a double. Beyond the largest one it is an infinity;
infinities and what is no number stay as they are. -/
def single (x : Float) : Float :=
  match FloatParts.ofFloat x with
  | .finite negative significand exponent =>
    let (num, den) := dyadicQuotient significand exponent
    match BinaryFormat.single.round num den with
    | some (significand, exponent) =>
      let (num, den) := dyadicQuotient significand exponent
      nearestDouble negative num den
    | none => infinity negative
  | _ => x

/-- A double that single precision holds exactly, an infinity, or no number. -/
def IsSingle (x : Float) : Prop := single x = x

instance (x : Float) : Decidable (IsSingle x) := inferInstanceAs (Decidable (single x = x))

end LogoLang
