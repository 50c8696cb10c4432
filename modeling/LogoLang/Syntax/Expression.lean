import LogoLang.Number.Literal
import LogoLang.Syntax.Cursor

set_option autoImplicit false

/-! # Reading expressions

Expressions are written in prefix notation: an operator is followed by exactly two expressions, so
there is no precedence. Reading fails only where nothing is left to read, that is at the end of the
line or at a `[`; any other text that is no expression becomes a malformed leaf. -/

namespace LogoLang

/-! ## Leaves -/

/-- The first of the given keywords that stands at the cursor, with what it is paired with. -/
def Cursor.oneOf? {α : Type} (c : Cursor) : List (Text × α) → Option (α × Span × Cursor)
  | [] => none
  | (keyword, a) :: rest =>
    match c.keyword? keyword with
    | some (span, after) => some (a, span, after)
    | none => c.oneOf? rest

/-- The truth literals. -/
def truthKeywords : List (Text × Bool) := [("\"TRUE".toList, true), ("\"FALSE".toList, false)]

/-- Reads a truth literal. -/
def readTruth? (c : Cursor) : Option (Expr × Cursor) :=
  (c.oneOf? truthKeywords).map fun (value, span, after) => (.truth value span, after)

/-- A character of a number literal. -/
def isNumberChar (c : Char) : Bool := c.isDigit || c == '.' || c == '-'

/-- Reads a number literal: a quote and at least one number character, which need not form a
number. -/
def readNumberLiteral? (c : Cursor) : Option (Expr × Cursor) :=
  let c := c.skipSpaces
  match c.rest with
  | '"' :: rest =>
    let literal := rest.takeWhile isNumberChar
    if literal.isEmpty then none
    else
      let span := c.spanOf (literal.length + 1)
      let expr := match singleOfLiteral? literal with
        | some value => .number value span
        | none => .malformed ⟨.invalidNumber, span⟩
      some (expr, c.after (literal.length + 1))
  | _ => none

/-- The stops of a variable's name. -/
def variableStops : Text := [':', ' ', '\t']

/-- Reads a variable: a colon and at least one further character, which need not form a name. -/
def readVariable? (c : Cursor) : Option (Expr × Cursor) :=
  let c := c.skipSpaces
  match c.rest with
  | ':' :: rest =>
    let name := rest.takeWhile (!variableStops.contains ·)
    if name.isEmpty then none
    else
      let span := c.spanOf (name.length + 1)
      let expr := if isValidName name then .var name span else .malformed ⟨.invalidName, span⟩
      some (expr, c.after (name.length + 1))
  | _ => none

/-- The words that ask for a property of the turtle. -/
def queryKeywords : List (Text × Query) := [
  ("XCOR".toList, .x), ("YCOR".toList, .y), ("HEADING".toList, .heading), ("COLOR".toList, .color)]

/-- Reads a question to the turtle. -/
def readQuery? (c : Cursor) : Option (Expr × Cursor) :=
  (c.oneOf? queryKeywords).map fun (query, span, after) => (.query query span, after)

/-- The stops of a text that is no expression. -/
def unexpectedStops : Text := [' ', '\t', '[']

/-- Takes the text up to the next space or bracket, if there is any, as a malformed leaf. -/
def readUnexpected? (c : Cursor) : Option (Expr × Cursor) :=
  let c := c.skipSpaces
  let word := c.wordUntil unexpectedStops
  if word.isEmpty then none
  else some (.malformed ⟨.unexpectedExpr, c.spanOf word.length⟩, c.after word.length)

/-! ## Operators -/

/-- The operators and how they are written. -/
def operatorKeywords : List (Text × BinaryOp) := [
  ("+".toList, .add), ("-".toList, .sub), ("*".toList, .mul), ("/".toList, .div),
  ("EQ".toList, .eq), ("NE".toList, .ne), ("LT".toList, .lt), ("GT".toList, .gt),
  ("AND".toList, .and), ("OR".toList, .or)]

/-- The leaf for an operand that is not there. -/
def missingOperand (c : Cursor) : Expr := .malformed ⟨.missingOperand, ⟨c.pos, 0⟩⟩

/-- The result of reading an operand; one that is not there takes up no text. -/
def orMissing (c : Cursor) (read? : Option (Expr × Cursor)) : Expr × Cursor :=
  read?.getD (missingOperand c, c)

/-- The place from the start of `first` to the last end among `first` and those of `others` that are
not empty. -/
def Span.cover (first : Span) (others : List Span) : Span :=
  let ends := (others.filter (·.length ≠ 0)).map Span.stop
  ⟨first.start, ends.foldl max first.stop - first.start⟩

/-! ## Expressions -/

/-- Reads one of the leaves that are tried before the operators: a literal or a variable. -/
def readLeafBefore? (c : Cursor) : Option (Expr × Cursor) :=
  (readTruth? c).or ((readNumberLiteral? c).or (readVariable? c))

/-- Reads one of the leaves that are tried after the operators: a question to the turtle, or else a
malformed text. -/
def readLeafAfter? (c : Cursor) : Option (Expr × Cursor) :=
  (readQuery? c).or (readUnexpected? c)

/-- Reads an expression with at most `fuel` operators nested in each other. -/
def readExprWith? : Nat → Cursor → Option (Expr × Cursor)
  | 0, _ => none
  | fuel + 1, c =>
    match readLeafBefore? c with
    | some result => some result
    | none =>
      match c.oneOf? operatorKeywords with
      | some (op, span, c₁) =>
        let (left, c₂) := orMissing c₁ (readExprWith? fuel c₁)
        let (right, c₃) := orMissing c₂ (readExprWith? fuel c₂)
        some (.binary op left right (span.cover [left.span, right.span]), c₃)
      | none => readLeafAfter? c

/-- Reads an expression. Every operator takes up text, so the text left bounds the nesting. -/
def readExpr? (c : Cursor) : Option (Expr × Cursor) := readExprWith? (c.rest.length + 1) c

/-- Reads expressions one after the other, at most `fuel` of them. -/
def readExprsWith : Nat → Cursor → List Expr × Cursor
  | 0, c => ([], c)
  | fuel + 1, c =>
    match readExpr? c with
    | none => ([], c)
    | some (expr, c₁) =>
      let (rest, c₂) := readExprsWith fuel c₁
      (expr :: rest, c₂)

/-- Reads expressions as long as there are any. -/
def readExprs (c : Cursor) : List Expr × Cursor := readExprsWith c.rest.length c

end LogoLang
