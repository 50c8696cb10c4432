import LogoLang.Text.Basic

set_option autoImplicit false

/-! # Lines and columns

Three views of a text as lines: `Text.splitLines` ends a line at any Unicode line boundary,
`Text.splitOn` cuts at one given character, and `Text.unifyNewlines` turns the two other spellings of
a new line into `'\n'`. `Text.expandTabs` replaces tabs by the spaces up to the next tab stop. -/

namespace LogoLang

/-! ## Line boundaries -/

/-- The characters that end a line: line feed, vertical tab, form feed, carriage return, the
information separators four to two, next line, and the line and paragraph separators. -/
def isLineBreak (c : Char) : Bool :=
  let n := c.toNat
  (10 ≤ n && n ≤ 13) || (28 ≤ n && n ≤ 30) || n == 0x85 || n == 0x2028 || n == 0x2029

/-- Puts `c` in front of the first line. -/
def consToHead (c : Char) : List Text → List Text
  | [] => [[c]]
  | line :: rest => (c :: line) :: rest

/-- The lines of a text without their boundaries. A carriage return and the line feed after it are
one boundary; a boundary at the very end opens no further line. -/
def Text.splitLines : Text → List Text
  | [] => []
  | '\r' :: '\n' :: rest => [] :: Text.splitLines rest
  | c :: rest =>
    if isLineBreak c then [] :: Text.splitLines rest
    else consToHead c (Text.splitLines rest)

/-- The pieces of a text between the occurrences of `sep`; there is one more piece than there are
occurrences. -/
def Text.splitOn (sep : Char) : Text → List Text
  | [] => [[]]
  | c :: rest =>
    if c = sep then [] :: Text.splitOn sep rest
    else consToHead c (Text.splitOn sep rest)

/-- A carriage return, alone or before a line feed, is read as a line feed. -/
def Text.unifyNewlines : Text → Text
  | [] => []
  | '\r' :: '\n' :: rest => '\n' :: Text.unifyNewlines rest
  | c :: rest => (if c = '\r' then '\n' else c) :: Text.unifyNewlines rest

/-- The text without the carriage returns and line feeds at its end. -/
def Text.dropNewlines (t : Text) : Text :=
  (t.reverse.dropWhile fun c => c == '\n' || c == '\r').reverse

/-! ## Tab stops -/

/-- The distance between two tab stops. -/
def tabWidth : Nat := 8

/-- Replaces tabs by spaces, for a text that starts in the given column: a tab reaches to the next
tab stop, and a line feed or a carriage return starts the columns again. -/
def Text.expandTabsFrom (column : Nat) : Text → Text
  | [] => []
  | c :: rest =>
    if c = '\t' then
      Text.spaces (tabWidth - column % tabWidth)
        ++ Text.expandTabsFrom (column + (tabWidth - column % tabWidth)) rest
    else if c = '\n' ∨ c = '\r' then c :: Text.expandTabsFrom 0 rest
    else c :: Text.expandTabsFrom (column + 1) rest

/-- Replaces tabs by spaces, for a text that starts in column zero. -/
def Text.expandTabs (t : Text) : Text := t.expandTabsFrom 0

end LogoLang
