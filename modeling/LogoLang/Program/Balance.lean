import LogoLang.Diagnostic.Basic
import LogoLang.Syntax.Statement
import LogoLang.Text.Blank

set_option autoImplicit false

/-! # Balance of a program's lines

Before any expression is read, the lines of a program are checked to be balanced: a line that starts
a block ends with `[`, every `]` closes a block, declarations have a `TO` and an `END` and are not
nested, no declaration stands inside a block, and nothing is left open at the end. The check goes
through the lines once with a stack of open blocks. -/

namespace LogoLang

/-! ## Classes of lines -/

/-- What a line means for the balance of a program. -/
inductive LineClass where
  | opener
  | closer
  | heading
  | ending
  | other
deriving DecidableEq, Repr

/-- The class of a line, told by its first word once blanks are trimmed. -/
def LineClass.of (line : Text) : LineClass :=
  let trimmed := line.trim
  let word := firstWord trimmed
  if word = "IF".toList ∨ word = "WHILE".toList then .opener
  else if trimmed.head? = some ']' then .closer
  else if word = toKeyword then .heading
  else if word = endKeyword then .ending
  else .other

/-- Whether a line ends with a left bracket once blanks are trimmed. -/
def endsWithBracket (line : Text) : Bool := line.trim.getLast? == some '['

/-! ## The state of the check -/

/-- A line that something is open since. -/
structure OpenLine where
  index : Nat
  text : Text
deriving DecidableEq, Repr

/-- What is open: the blocks, innermost first, and the declaration. -/
structure Balance where
  blocks : List OpenLine
  decl : Option OpenLine
deriving DecidableEq, Repr

/-- The state before the first line. -/
def Balance.start : Balance := ⟨[], none⟩

/-! ## Errors of structure

They show two lines, one of which is the (missing) line before or after the line at fault. -/

/-- An error at the place where a line is missing after `line`. -/
def errorBelow (kind : ErrorKind) (line : Text) (lineNumber : Int) : Diagnostic :=
  let source := line ++ "\n ".toList
  Diagnostic.at .compiling kind source lineNumber (source.length - 1) 1

/-- An error at the place where a line is missing before `line`. -/
def errorAbove (kind : ErrorKind) (line : Text) (lineNumber : Int) : Diagnostic :=
  Diagnostic.at .compiling kind (" \n".toList ++ line) lineNumber 0 1

/-- An error about a whole line that is shown below the line `opened`. -/
def errorUnder (kind : ErrorKind) (opened line : Text) (lineNumber : Int) : Diagnostic :=
  let source := opened ++ '\n' :: line
  Diagnostic.at .compiling kind source lineNumber (source.length - line.length) line.length

/-- An error just after the end of a line, with a space between. -/
def errorAtEnd (kind : ErrorKind) (line : Text) (lineNumber : Int) : Diagnostic :=
  let source := line.trimRight ++ "  ".toList
  Diagnostic.at .compiling kind source lineNumber (source.length - 1) 1

/-! ## The check -/

/-- The effect of a line. -/
def Balance.step (s : Balance) (index : Nat) (line : Text) : Except Diagnostic Balance :=
  let number : Int := index + 1
  match LineClass.of line with
  | .opener =>
    if endsWithBracket line then .ok { s with blocks := ⟨index, line⟩ :: s.blocks }
    else .error (errorAtEnd .missingLeftBracket line number)
  | .closer =>
    match s.blocks with
    | [] => .error (errorAbove .missingWhileOrIf line number)
    | _ :: outer => .ok { s with blocks := outer }
  | .heading =>
    match s.decl, s.blocks with
    | some opened, _ => .error (errorBelow .missingEnd opened.text number)
    | none, opened :: _ => .error (errorUnder .declWrongPosition opened.text line number)
    | none, [] => .ok { s with decl := some ⟨index, line⟩ }
  | .ending =>
    match s.decl, s.blocks with
    | some _, opened :: _ => .error (errorBelow .missingRightBracket opened.text number)
    | none, opened :: _ => .error (errorUnder .declWrongPosition opened.text line number)
    | none, [] => .error (errorAbove .missingTo line number)
    | some _, [] => .ok { s with decl := none }
  | .other => .ok s

/-- The effect of lines, the first of which has the given index. -/
def Balance.run (s : Balance) (index : Nat) : List Text → Except Diagnostic Balance
  | [] => .ok s
  | line :: rest => do
    let s ← s.step index line
    s.run (index + 1) rest

/-- What is open at the end of the input is an error in line zero. -/
def Balance.finish (s : Balance) : Except Diagnostic Unit :=
  match s.decl, s.blocks with
  | some opened, _ => .error (errorBelow .missingEnd opened.text 0)
  | none, opened :: _ => .error (errorBelow .missingRightBracket opened.text 0)
  | none, [] => .ok ()

/-- Checks that lines are balanced. -/
def checkBalance (lines : List Text) : Except Diagnostic Unit := do
  let s ← Balance.start.run 0 lines
  s.finish

end LogoLang
