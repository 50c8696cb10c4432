import LogoLang.Text.Lines

set_option autoImplicit false

/-! # Sources of programs

A program is given as one text, as a list of lines, or as a stream, such as a file that has been
opened. `Source.toLines` is the program of each of them. -/

namespace LogoLang

/-- Where a program comes from. -/
inductive Source where
  | text (content : Text)
  | lines (given : List Text)
  | stream (name : Option Text) (content : Text)
deriving DecidableEq, Repr

/-- The name that a source has of its own. -/
def Source.name? : Source → Option Text
  | .stream name _ => name
  | .text _ | .lines _ => none

/-- The lines of a program. Given lines lose the newlines at their ends; they are not cut at the line
boundaries inside them. -/
def Source.toLines : Source → List Text
  | .text content | .stream _ content => content.splitLines
  | .lines given => given.map Text.dropNewlines

/-! ## Files -/

/-- The text that bytes encode, if they do. -/
def decodeText? (content : ByteArray) : Option Text := (String.fromUTF8? content).map String.toList

/-- The bytes that encode a text. -/
def encodeText (t : Text) : ByteArray := (String.ofList t).toUTF8

/-- The source that a file of the given content is, if that is text. The lines of a file may end in
any of the three common ways. -/
def Source.ofFile? (path : Text) (content : ByteArray) : Option Source :=
  (decodeText? content).map fun t => .stream (some path) t.unifyNewlines

end LogoLang
