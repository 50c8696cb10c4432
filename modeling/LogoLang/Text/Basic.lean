set_option autoImplicit false

/-! # Text as a list of characters

Every text of the library (a program line, a name, a piece of a message) is a list of Unicode code
points. A position in a text is a number of code points, so that counting, cutting and matching are
the list operations `length`, `take`, `drop` and `isPrefixOf`. -/

namespace LogoLang

/-- A text: its code points in order. -/
abbrev Text := List Char

/-- The texts of `parts` in order, with `sep` between each two of them. -/
def Text.join (sep : Text) : List Text → Text
  | [] => []
  | [part] => part
  | part :: rest => part ++ sep ++ Text.join sep rest

/-- The order of texts by their code points, in which a text comes after its beginnings. -/
def Text.le : Text → Text → Bool
  | [], _ => true
  | _ :: _, [] => false
  | a :: as, b :: bs => if a = b then Text.le as bs else decide (a.toNat < b.toNat)

/-- `count` spaces. -/
def Text.spaces (count : Nat) : Text := List.replicate count ' '

/-- A truth value as it is shown. -/
def Text.ofBool (b : Bool) : Text := if b then "True".toList else "False".toList

/-! ## Whole numbers -/

/-- The decimal digits of a natural number. -/
def Text.ofNat (n : Nat) : Text := Nat.toDigits 10 n

/-- The decimal digits of an integer, after a minus sign when it is negative. -/
def Text.ofInt : Int → Text
  | .ofNat n => Text.ofNat n
  | .negSucc n => '-' :: Text.ofNat (n + 1)

/-- The digit that a decimal character stands for. -/
def digitValue (c : Char) : Nat := c.toNat - '0'.toNat

/-- The number that a run of decimal digits writes; the empty run writes zero. -/
def Text.toNat (digits : Text) : Nat :=
  digits.foldl (fun n c => 10 * n + digitValue c) 0

end LogoLang
