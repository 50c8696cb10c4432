import LogoLang.Syntax.Name
import LogoLang.Syntax.Tree

set_option autoImplicit false

/-! # Reading along a line

A `Cursor` is a position in a line together with the text from there on. The functions of this module
move it over blanks, words and keywords; the grammar's own blanks are the space and the tab. -/

namespace LogoLang

/-- A position in a line and what is left of the line there. -/
structure Cursor where
  pos : Nat
  rest : Text
deriving DecidableEq, Repr

/-- The cursor at a position of a line. -/
def Cursor.at (line : Text) (pos : Nat) : Cursor := ⟨pos, line.drop pos⟩

/-- The cursor at the start of a line. -/
def Cursor.start (line : Text) : Cursor := ⟨0, line⟩

/-- Moves over `count` characters. -/
def Cursor.advance (c : Cursor) (count : Nat) : Cursor := ⟨c.pos + count, c.rest.drop count⟩

/-- A blank of the grammar. -/
def isSpace (c : Char) : Bool := c == ' ' || c == '\t'

/-- Moves over spaces and tabs. -/
def Cursor.skipSpaces (c : Cursor) : Cursor := c.advance (c.rest.takeWhile isSpace).length

/-- The text from the cursor to the first of the given characters. -/
def Cursor.wordUntil (c : Cursor) (stops : Text) : Text := c.rest.takeWhile (!stops.contains ·)

/-- The place of the next `length` characters. -/
def Cursor.spanOf (c : Cursor) (length : Nat) : Span := ⟨c.pos, length⟩

/-- Moves over `length` characters and the spaces after them. -/
def Cursor.after (c : Cursor) (length : Nat) : Cursor := (c.advance length).skipSpaces

/-- Whether a name could go on from a keyword into the text after it. -/
def runsOn (keyword after : Text) : Bool :=
  match keyword.getLast?, after.head? with
  | some last, some next => isNameChar last && isNameChar next
  | _, _ => false

/-- Reads a keyword after any spaces: its place, and the cursor after it and the spaces that follow.
A keyword that ends in a letter must not run on into a longer word. -/
def Cursor.keyword? (c : Cursor) (keyword : Text) : Option (Span × Cursor) :=
  let c := c.skipSpaces
  if keyword.isPrefixOf c.rest && !runsOn keyword (c.rest.drop keyword.length) then
    some (c.spanOf keyword.length, c.after keyword.length)
  else none

/-- The stops of a word. -/
def wordStops : Text := [' ', '\t']

/-- The first word of a line, empty if there is none. -/
def firstWord (line : Text) : Text := (Cursor.start line).skipSpaces.wordUntil wordStops

end LogoLang
