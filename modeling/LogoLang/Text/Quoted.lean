import LogoLang.Text.Printable

set_option autoImplicit false

/-! # Quoted text

The form in which messages show a text: between quotes, with the quote in use and the backslash
escaped, and with an escape for every character that cannot be printed. -/

namespace LogoLang

/-- The hexadecimal digits of `n`, at least `width` of them. -/
def hexDigits (width n : Nat) : Text :=
  let digits := Nat.toDigits 16 n
  List.replicate (width - digits.length) '0' ++ digits

/-- A character between the quotes `quote`. The three common controls have letters of their own; the
other characters that cannot be printed are given by number, in as few of two, four or eight
hexadecimal digits as hold it. -/
def escapeChar (quote c : Char) : Text :=
  if c = quote ∨ c = '\\' then ['\\', c]
  else if c = '\n' then ['\\', 'n']
  else if c = '\r' then ['\\', 'r']
  else if c = '\t' then ['\\', 't']
  else if isPrintable c then [c]
  else if c.toNat < 0x100 then ['\\', 'x'] ++ hexDigits 2 c.toNat
  else if c.toNat < 0x10000 then ['\\', 'u'] ++ hexDigits 4 c.toNat
  else ['\\', 'U'] ++ hexDigits 8 c.toNat

/-- The text in quotes: single ones, unless it holds a single quote and no double quote. -/
def Text.quoted (t : Text) : Text :=
  let quote := if t.contains '\'' && !t.contains '"' then '"' else '\''
  quote :: t.flatMap (escapeChar quote) ++ [quote]

end LogoLang
