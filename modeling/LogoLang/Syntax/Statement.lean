import LogoLang.Syntax.Expression

set_option autoImplicit false

/-! # Reading statements and headings

A statement takes up one line and is told by its first word. A line that starts with no command word
is a call. The heading of a declaration is read by `readDecl?`, which the caller picks by the first
word of the line. -/

namespace LogoLang

/-! ## Labels -/

/-- A label from the name it is made of and its place. -/
def Label.ofName (name : Text) (span : Span) : Label :=
  if isValidName name then .named name span else .malformed ⟨.invalidName, span⟩

/-- The stops of a quoted name. -/
def quotedStops : Text := ['"', ' ', '\t']

/-- Takes the next word as a label that is not in quoted form. -/
def readUnquoted? (c : Cursor) : Option (Label × Cursor) :=
  let word := c.wordUntil wordStops
  if word.isEmpty then none
  else some (.malformed ⟨.unexpectedAssign, c.spanOf word.length⟩, c.after word.length)

/-- Reads the name of a variable after its opening quote. A word of another form is malformed. -/
def readTarget? (c : Cursor) : Option (Label × Cursor) :=
  let c := c.skipSpaces
  match c.rest with
  | '"' :: rest =>
    let name := rest.takeWhile (!quotedStops.contains ·)
    if name.isEmpty then readUnquoted? c
    else some (.ofName name (c.spanOf (name.length + 1)), c.after (name.length + 1))
  | _ => readUnquoted? c

/-- Reads the name of a function. -/
def readFunctionName? (c : Cursor) : Option (Label × Cursor) :=
  let c := c.skipSpaces
  let word := c.wordUntil wordStops
  if word.isEmpty then none
  else some (.ofName word (c.spanOf word.length), c.after word.length)

/-! ## Statements -/

/-- The shapes of a statement that has a command word. -/
inductive StmtForm where
  | block (kind : BlockKind)
  | assign (kind : AssignKind)
  | pen (down : Bool)
  | command (command : Command)
deriving DecidableEq, Repr

/-- The command words. -/
def stmtKeywords : List (Text × StmtForm) := [
  ("IF".toList, .block .branch), ("WHILE".toList, .block .loop),
  ("MAKE".toList, .assign .make), ("ADDASSIGN".toList, .assign .increase),
  ("PENUP".toList, .pen false), ("PENDOWN".toList, .pen true),
  ("FORWARD".toList, .command .forward), ("BACK".toList, .command .back),
  ("LEFT".toList, .command .left), ("RIGHT".toList, .command .right),
  ("SETPENCOLOR".toList, .command .setPenColor), ("TURN".toList, .command .turn),
  ("SETHEADING".toList, .command .setHeading), ("SETX".toList, .command .setX),
  ("SETY".toList, .command .setY)]

/-- The flaw of a part that is not there; it points at the character before the missing part. -/
def missingPart (kind : ErrorKind) (c : Cursor) : Flaw := ⟨kind, ⟨c.pos - 1, 1⟩⟩

/-- Reads an operand of a statement. -/
def readOperand (c : Cursor) : Expr × Cursor :=
  (readExpr? c).getD (.malformed (missingPart .missingOperand c), c)

/-- Reads the target of an assignment. -/
def readTarget (c : Cursor) : Label × Cursor :=
  (readTarget? c).getD (.malformed (missingPart .missingOperand c), c)

/-- Reads what follows the command word of a statement. A block gets an empty body. -/
def StmtForm.read (form : StmtForm) (c : Cursor) (line : Nat) : Stmt × Cursor :=
  match form with
  | .block kind =>
    let (condition, c₁) := readOperand c
    (.block kind condition [] line, c₁)
  | .assign kind =>
    let (target, c₁) := readTarget c
    let (value, c₂) := readOperand c₁
    (.assign kind target value line, c₂)
  | .pen down => (.pen down line, c)
  | .command cmd =>
    let (value, c₁) := readOperand c
    (.command cmd value line, c₁)

/-- Reads a call: the name of a function and its arguments. -/
def readCall? (c : Cursor) (line : Nat) : Option (Stmt × Cursor) :=
  (readFunctionName? c).map fun (name, c₁) =>
    let (args, c₂) := readExprs c₁
    (.call name args line, c₂)

/-- Reads a line as a statement, with the cursor at the first character that is not part of it. -/
def readStmt? (text : Text) (line : Nat) : Option (Stmt × Cursor) :=
  let c := Cursor.start text
  match c.oneOf? stmtKeywords with
  | some (form, _, c₁) => some (form.read c₁ line)
  | none => readCall? c line

/-! ## Headings -/

/-- Reads parameters one after the other, at most `fuel` of them. -/
def readParamsWith : Nat → Cursor → List Label × Cursor
  | 0, c => ([], c)
  | fuel + 1, c =>
    match readTarget? c with
    | none => ([], c)
    | some (param, c₁) =>
      let (rest, c₂) := readParamsWith fuel c₁
      (param :: rest, c₂)

/-- Reads parameters as long as there are any. -/
def readParams (c : Cursor) : List Label × Cursor := readParamsWith c.rest.length c

/-- The word that starts a declaration. -/
def toKeyword : Text := "TO".toList

/-- The word that ends a declaration. -/
def endKeyword : Text := "END".toList

/-- Reads a line as the heading of a declaration. -/
def readDecl? (text : Text) : Option (Decl × Cursor) :=
  ((Cursor.start text).keyword? toKeyword).map fun (_, c) =>
    let (name, c₁) := (readFunctionName? c).getD (.malformed (missingPart .missingName c), c)
    let (params, c₂) := readParams c₁
    (⟨name, params⟩, c₂)

end LogoLang
