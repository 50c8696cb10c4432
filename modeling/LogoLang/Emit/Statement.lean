import LogoLang.Emit.Expression
import LogoLang.Program.FunctionTable

set_option autoImplicit false

/-! # Emitting statements

A statement is emitted as lines of code with a depth of indentation. The scope is carried from one
statement to the next in the order of the text, through bodies as well. A failure carries the line of
the statement that it is found in. -/

namespace LogoLang

/-! ## Lines of code -/

/-- A line of code and how deep it is indented. -/
structure CodeLine where
  depth : Nat
  code : Text
deriving DecidableEq, Repr

/-- The text of a line. -/
def CodeLine.toText (line : CodeLine) : Text :=
  Text.spaces (4 * line.depth) ++ line.code ++ ['\n']

/-- Whether a line is a comment. -/
def CodeLine.isComment (line : CodeLine) : Bool := line.code.head? == some '#'

/-- The line that stands for a body with nothing to do. -/
def passLine (depth : Nat) : CodeLine := ⟨depth, "pass".toList⟩

/-- A body needs at least one line that is no comment. -/
def closeBody (depth : Nat) (lines : List CodeLine) : List CodeLine :=
  if lines.all CodeLine.isComment then lines ++ [passLine depth] else lines

/-! ## Failures with their lines -/

/-- Why no code can be emitted for a program, and in which line. -/
structure EmitFailure where
  fault : EmitFault
  line : Nat
deriving DecidableEq

/-- An emission of statements. -/
abbrev EmittingAt := Traced EmitNote EmitFailure

/-- Places an emission in a line. -/
def Emitting.inLine {α : Type} (line : Nat) (m : Emitting α) : EmittingAt α :=
  ⟨m.trace, m.result.mapError (⟨·, line⟩)⟩

/-! ## Statements -/

/-- The name of a label. -/
def Label.emit : Label → Emitting Text
  | .named name _ => return name
  | .malformed _ => Traced.fail .malformed

/-- The word that starts a block. -/
def BlockKind.word : BlockKind → Text
  | .branch => "if ".toList
  | .loop => "while ".toList

/-- The method of a command and the arguments that go before its operand. -/
def Command.method : Command → Method × List Text
  | .forward => (.penMove, ["0".toList])
  | .back => (.penMove, ["180".toList])
  | .left => (.penMove, ["-90".toList])
  | .right => (.penMove, ["90".toList])
  | .setPenColor => (.setPenColor, [])
  | .turn => (.turn, [])
  | .setHeading => (.setHeading, [])
  | .setX => (.setX, [])
  | .setY => (.setY, [])

/-- The code of an assignment, and the scope after it. -/
def emitAssign (scope : Scope) (kind : AssignKind) (target : Label) (value : Expr) :
    Emitting (Scope × Text) := do
  match kind with
  | .make =>
    let code ← value.emit scope
    let name ← target.emit
    return (Bindings.set scope name code.isTruth, variableName name ++ " = ".toList ++ code.text)
  | .increase =>
    let name ← target.emit
    match Bindings.get? scope name with
    | none => Emitting.refuse .undefinedVariable target.span
    | some true => Emitting.refuse .unexpectedBooleanType target.span
    | some false =>
      let code ← value.emitNumber scope
      let var := variableName name
      return (scope, var ++ " = ".toList ++ roundedCode (var ++ " + ".toList ++ code))

/-- The code of a call, which needs as many arguments as the function has parameters. -/
def emitFunctionCall (table : FunctionTable) (scope : Scope) (label : Label) (args : List Expr) :
    Emitting Text := do
  let name ← label.emit
  match table.arity? name with
  | none => Emitting.refuse .undefinedFunction label.span
  | some arity =>
    if arity < args.length then Emitting.refuse .tooManyArguments label.span
    else if args.length < arity then Emitting.refuse .missingArguments label.span
    else
      let codes ← emitNumbers scope args
      return functionName name ++ parenthesized (Text.join ", ".toList ("draw".toList :: codes))

/-- The code of a comment. -/
def commentCode (text : Text) : Text := if text.isEmpty then ['#'] else '#' :: ' ' :: text

mutual
/-- The lines of a statement at a depth, and the scope after it. -/
def Stmt.emit (table : FunctionTable) (depth : Nat) (scope : Scope) :
    Stmt → EmittingAt (Scope × List CodeLine)
  | .block kind condition body line => do
    let code ← (condition.emitTruth scope).inLine line
    let (scope, lines) ← emitBody table (depth + 1) scope body
    return (scope, ⟨depth, kind.word ++ code ++ [':']⟩ :: closeBody (depth + 1) lines)
  | .assign kind target value line => do
    let (scope, code) ← (emitAssign scope kind target value).inLine line
    return (scope, [⟨depth, code⟩])
  | .pen down line => do
    let code ← (emitCall (if down then .penDown else .penUp) []).inLine line
    return (scope, [⟨depth, code⟩])
  | .command cmd value line => do
    let code ← (value.emitNumber scope).inLine line
    let (method, args) := cmd.method
    let call ← (emitCall method (args ++ [code])).inLine line
    return (scope, [⟨depth, call⟩])
  | .call label args line => do
    let code ← (emitFunctionCall table scope label args).inLine line
    return (scope, [⟨depth, code⟩])
  | .comment text _ => return (scope, [⟨depth, commentCode text⟩])

/-- The lines of statements at a depth, and the scope after them. -/
def emitBody (table : FunctionTable) (depth : Nat) (scope : Scope) :
    List Stmt → EmittingAt (Scope × List CodeLine)
  | [] => return (scope, [])
  | stmt :: rest => do
    let (scope, first) ← stmt.emit table depth scope
    let (scope, others) ← emitBody table depth scope rest
    return (scope, first ++ others)
end

end LogoLang
