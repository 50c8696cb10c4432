import LogoLang.Program.Balance
import LogoLang.Program.FunctionTable

set_option autoImplicit false

/-! # Assembly of a program

The lines of a program are put together to a function table. A block is closed by a line that can be
arbitrarily far below the line that opened it, so nesting is rebuilt with two stacks: `pending` holds
the headers that wait for their bodies, and `scopes` one list of statements for each open body, the
outermost of which is the top-level program. -/

namespace LogoLang

/-! ## State and failures -/

/-- An `IF` or `WHILE` line that waits for its body. -/
structure BlockHeader where
  kind : BlockKind
  condition : Expr
  line : Nat
deriving DecidableEq

/-- The statement that a header and a body make. -/
def BlockHeader.close (header : BlockHeader) (body : List Stmt) : Stmt :=
  .block header.kind header.condition body header.line

/-- What has been assembled so far. Both stacks have their innermost element first. -/
structure Assembly where
  table : FunctionTable
  pending : List BlockHeader
  scopes : List (List Stmt)
  decl : Option Decl
  /-- The headings read so far with their lines, the last one first. -/
  headings : List (Nat × Decl)

/-- The state before the first line. -/
def Assembly.start : Assembly := ⟨.empty, [], [[]], none, []⟩

/-- The ways in which assembly can fail. -/
inductive AssemblyFailure where
  /-- A diagnostic for the user. -/
  | diagnostic (d : Diagnostic)
  /-- A line that its first word announces as a heading or a statement cannot be read as one. -/
  | unreadable (index : Nat)
  /-- A body is closed while none is open. -/
  | noScope
  /-- A function is inserted under a name that is taken. -/
  | duplicate (name : Text)
deriving DecidableEq

/-- An error in a line. -/
def lineError (kind : ErrorKind) (line : Text) (index : Nat) (span : Span) : AssemblyFailure :=
  .diagnostic (Diagnostic.at .compiling kind line (index + 1) span.start span.length)

/-- Fails with a flaw, if there is one. -/
def refuseFlaw (line : Text) (index : Nat) : Option Flaw → Except AssemblyFailure Unit
  | some flaw => .error (lineError flaw.kind line index flaw.span)
  | none => .ok ()

/-! ## Shapes of lines -/

/-- What a line is assembled as. -/
inductive LineShape where
  | blank
  | comment (text : Text)
  | close
  | heading
  | ending
  | statement
deriving DecidableEq, Repr

/-- The shape of a line, told from the line without the blanks at its ends. -/
def LineShape.of (line : Text) : LineShape :=
  let trimmed := line.trim
  if trimmed.isEmpty then .blank
  else if "//".toList.isPrefixOf trimmed then .comment (Text.trim (trimmed.drop 2))
  else if trimmed = [']'] then .close
  else if firstWord trimmed = toKeyword then .heading
  else if firstWord trimmed = endKeyword then .ending
  else .statement

/-! ## Steps -/

/-- Adds a statement to the innermost open body. -/
def Assembly.append (s : Assembly) (stmt : Stmt) : Except AssemblyFailure Assembly :=
  match s.scopes with
  | [] => .error .noScope
  | body :: outer => .ok { s with scopes := (body ++ [stmt]) :: outer }

/-- Closes the innermost block. -/
def Assembly.closeBlock (s : Assembly) (index : Nat) (line : Text) :
    Except AssemblyFailure Assembly :=
  match s.pending, s.scopes with
  | [], _ => .error (lineError .missingWhileOrIf line index ⟨0, 1⟩)
  | _ :: _, [] => .error .noScope
  | header :: pending, body :: scopes =>
    { s with pending, scopes }.append (header.close body)

/-- The error of a line on which a name is declared that has a function already. -/
def refuseRepeated (table : FunctionTable) (line : Text) (index : Nat) (name : Label) :
    Except AssemblyFailure Unit :=
  match name with
  | .named text span =>
    if table.contains text then .error (lineError .repeatFunctionName line index span) else .ok ()
  | .malformed _ => .ok ()

/-- Refuses text that is left over after a line has been read. -/
def refuseRest (line : Text) (index : Nat) (c : Cursor) : Except AssemblyFailure Unit :=
  let rest := Text.trimRight c.rest
  if rest.isEmpty then .ok ()
  else .error (lineError .unexpectedExtraOperand line index ⟨c.pos, rest.length⟩)

/-- Starts a declaration. -/
def Assembly.declare (s : Assembly) (index : Nat) (line : Text) :
    Except AssemblyFailure Assembly :=
  match readDecl? line with
  | none => .error (.unreadable index)
  | some (decl, c) => do
    refuseRest line index c
    refuseRepeated s.table line index decl.name
    refuseFlaw line index decl.firstFlaw?
    return { s with
      scopes := [] :: s.scopes, decl := some decl, headings := (index, decl) :: s.headings }

/-- The place of the text after the `END` of a line, if there is any. -/
def afterEnd? (line : Text) : Option Span :=
  let start := (line.takeWhile isBlank).length + endKeyword.length
  let after := line.drop start
  let rest := Text.trim after
  if rest.isEmpty then none else some ⟨start + (after.takeWhile isBlank).length, rest.length⟩

/-- Ends the declaration: its body goes into the table. -/
def Assembly.endDeclaration (s : Assembly) (index : Nat) (line : Text) :
    Except AssemblyFailure Assembly :=
  match s.decl with
  | none => .error (lineError .missingTo line index ⟨0, line.length⟩)
  | some decl =>
    match afterEnd? line with
    | some span => .error (lineError .unexpectedExtraOperand line index span)
    | none =>
      match decl.name, s.scopes with
      | .malformed _, _ => .error (.unreadable index)
      | .named _ _, [] => .error .noScope
      | .named name _, body :: scopes =>
        match s.table.insert? name ⟨decl.params, body⟩ with
        | none => .error (.duplicate name)
        | some table => .ok { s with table, scopes, decl := none }

/-- Checks what follows the condition of a block, which has to be the left bracket alone. -/
def refuseUnopened (line : Text) (index : Nat) (c : Cursor) : Except AssemblyFailure Unit :=
  let rest := Text.trimRight c.rest
  if rest = ['['] then .ok ()
  else if rest.getLast? = some '[' then
    .error (lineError .unexpectedExtraOperand line index ⟨c.pos, rest.length - 1⟩)
  else .error (.diagnostic (errorAtEnd .missingLeftBracket line (index + 1)))

/-- Reads a line as a statement and adds it, or opens the block that it is the header of. -/
def Assembly.statement (s : Assembly) (index : Nat) (line : Text) :
    Except AssemblyFailure Assembly :=
  match readStmt? line index with
  | none => .error (.unreadable index)
  | some (.block kind condition _ lineIndex, c) => do
    refuseUnopened line index c
    refuseFlaw line index condition.firstFlaw?
    return { s with
      pending := ⟨kind, condition, lineIndex⟩ :: s.pending, scopes := [] :: s.scopes }
  | some (stmt, c) => do
    refuseRest line index c
    refuseFlaw line index stmt.firstFlaw?
    s.append stmt

/-- The effect of a line. -/
def Assembly.step (s : Assembly) (index : Nat) (line : Text) : Except AssemblyFailure Assembly :=
  match LineShape.of line with
  | .blank => .ok s
  | .comment text => s.append (.comment text index)
  | .close => s.closeBlock index line
  | .heading => s.declare index line
  | .ending => s.endDeclaration index line
  | .statement => s.statement index line

/-- The effect of lines, the first of which has the given index: the state after the last line that
could be taken in, and the failure of the line after it, if there is one. -/
def Assembly.run (s : Assembly) (index : Nat) : List Text → Assembly × Option AssemblyFailure
  | [] => (s, none)
  | line :: rest =>
    match s.step index line with
    | .ok next => next.run (index + 1) rest
    | .error failure => (s, some failure)

/-- Completes the table with the top-level program. Nothing may be left open. -/
def Assembly.finish (s : Assembly) : Except AssemblyFailure FunctionTable :=
  let endError (kind : ErrorKind) : AssemblyFailure :=
    .diagnostic (Diagnostic.at .compiling kind [' '] 0 0 1)
  match s.decl, s.pending, s.scopes with
  | some _, _, _ => .error (endError .missingEnd)
  | none, _ :: _, _ => .error (endError .missingRightBracket)
  | none, [], [] => .error .noScope
  | none, [], body :: _ =>
    match s.table.insert? mainName ⟨[], body⟩ with
    | none => .error (.duplicate mainName)
    | some table => .ok table

/-! ## Whole programs -/

/-- The state in which assembly of the lines stops. -/
def Assembly.ofLines (lines : List Text) : Assembly × Option AssemblyFailure :=
  Assembly.start.run 0 lines

/-- The function table of the lines of a program, which need not be balanced. -/
def assemble (lines : List Text) : Except AssemblyFailure FunctionTable :=
  match Assembly.ofLines lines with
  | (_, some failure) => .error failure
  | (s, none) => s.finish

/-- The function table of the lines of a program. The balance of the lines is checked first. -/
def parseProgram (lines : List Text) : Except AssemblyFailure FunctionTable :=
  match checkBalance lines with
  | .error d => .error (.diagnostic d)
  | .ok () => assemble lines

end LogoLang
