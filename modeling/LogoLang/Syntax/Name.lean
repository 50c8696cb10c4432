import LogoLang.Text.Basic

set_option autoImplicit false

/-! # Names

Functions and variables have names of ASCII letters, digits and underscores that do not start with a
digit. -/

namespace LogoLang

/-- A character that may stand in a name, and that a keyword ending in one may not touch. -/
def isNameChar (c : Char) : Bool := c.isAlphanum || c == '_'

/-- Whether a text is a name. -/
def isValidName : Text → Bool
  | [] => false
  | c :: rest => (c.isAlpha || c == '_') && rest.all isNameChar

end LogoLang
