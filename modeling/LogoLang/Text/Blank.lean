import LogoLang.Text.Basic

set_option autoImplicit false

/-! # Blank characters

The Unicode characters that count as white space, and the trimming of a text at its ends. Trimming
removes all of them, while the grammar of a line skips spaces and tabs only
(`LogoLang.Syntax.Cursor`). -/

namespace LogoLang

/-- White space in the sense of Unicode: the separators of category `Zs` and every character whose
bidirectional class is a white space, a segment separator or a paragraph separator. -/
def isBlank (c : Char) : Bool :=
  let n := c.toNat
  (9 ≤ n && n ≤ 13) || (28 ≤ n && n ≤ 32) || n == 0x85 || n == 0xa0 || n == 0x1680
    || (0x2000 ≤ n && n ≤ 0x200a) || n == 0x2028 || n == 0x2029 || n == 0x202f || n == 0x205f
    || n == 0x3000

/-- The text without the blanks at its start. -/
def Text.trimLeft (t : Text) : Text := t.dropWhile isBlank

/-- The text without the blanks at its end. -/
def Text.trimRight (t : Text) : Text := (t.reverse.dropWhile isBlank).reverse

/-- The text without the blanks at either end. -/
def Text.trim (t : Text) : Text := t.trimLeft.trimRight

end LogoLang
