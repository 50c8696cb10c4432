import LogoLang.Number.Decimal
import LogoLang.Syntax.Tree

set_option autoImplicit false

/-! # Outlines

The outline of a tree has one line for each node: the name of its class, indented by its depth, and
after a tab what the node itself holds. Places and line numbers are left out. -/

namespace LogoLang

/-! ## Names of the classes -/

/-- The class of an operator. -/
def BinaryOp.className : BinaryOp → Text
  | .add => "Add".toList
  | .sub => "Sub".toList
  | .mul => "Mul".toList
  | .div => "Div".toList
  | .eq => "Eq".toList
  | .ne => "Ne".toList
  | .lt => "Lt".toList
  | .gt => "Gt".toList
  | .and => "And".toList
  | .or => "Or".toList

/-- The class of a question to the turtle. -/
def Query.className : Query → Text
  | .x => "XCor".toList
  | .y => "YCor".toList
  | .heading => "Heading".toList
  | .color => "Color".toList

/-- The class of a block. -/
def BlockKind.className : BlockKind → Text
  | .branch => "If".toList
  | .loop => "While".toList

/-- The class of an assignment. -/
def AssignKind.className : AssignKind → Text
  | .make => "Make".toList
  | .increase => "AddAssign".toList

/-- The class of a pen statement. -/
def penClassName (down : Bool) : Text := if down then "PenDown".toList else "PenUp".toList

/-- The class of a command. -/
def Command.className : Command → Text
  | .forward => "Forward".toList
  | .back => "Back".toList
  | .left => "Left".toList
  | .right => "Right".toList
  | .setPenColor => "SetPenColor".toList
  | .turn => "Turn".toList
  | .setHeading => "SetHeading".toList
  | .setX => "SetX".toList
  | .setY => "SetY".toList

/-! ## Lines and trees -/

/-- A line of an outline: the indentation, the class, and what follows it. -/
def outlineLine (indent : Text) (depth : Nat) (className own : Text) : Text :=
  (List.replicate depth indent).flatten ++ className ++ own ++ ['\n']

/-- What a node itself holds, after a tab. -/
def outlineOwn (t : Text) : Text := '\t' :: t

/-- The outline of an expression at a depth. -/
def Expr.outlineAt (indent : Text) (depth : Nat) : Expr → Text
  | .truth value _ => outlineLine indent depth "Boolean".toList (outlineOwn (Text.ofBool value))
  | .number value _ => outlineLine indent depth "Float".toList (outlineOwn (Text.ofDouble value))
  | .var name _ => outlineLine indent depth "Var".toList (outlineOwn name)
  | .malformed flaw => outlineLine indent depth "Error".toList (outlineOwn flaw.kind.label)
  | .binary op left right _ =>
    outlineLine indent depth op.className []
      ++ left.outlineAt indent (depth + 1) ++ right.outlineAt indent (depth + 1)
  | .query q _ => outlineLine indent depth q.className []

/-- The outline of a label, whose class depends on what it names. -/
def Label.outlineAt (indent : Text) (depth : Nat) (className : Text) : Label → Text
  | .named name _ => outlineLine indent depth className (outlineOwn name)
  | .malformed flaw => outlineLine indent depth "Error".toList (outlineOwn flaw.kind.label)

/-- The class of a label that names a variable. -/
def variableClass : Text := "Var".toList

/-- The class of a label that names a function. -/
def functionClass : Text := "Name".toList

mutual
/-- The outline of a statement at a depth. -/
def Stmt.outlineAt (indent : Text) (depth : Nat) : Stmt → Text
  | .block kind condition body _ =>
    outlineLine indent depth kind.className []
      ++ condition.outlineAt indent (depth + 1) ++ outlineBody indent (depth + 1) body
  | .assign kind target value _ =>
    outlineLine indent depth kind.className []
      ++ target.outlineAt indent (depth + 1) variableClass ++ value.outlineAt indent (depth + 1)
  | .pen down _ => outlineLine indent depth (penClassName down) []
  | .command cmd value _ =>
    outlineLine indent depth cmd.className [] ++ value.outlineAt indent (depth + 1)
  | .call name args _ =>
    outlineLine indent depth "Func".toList []
      ++ name.outlineAt indent (depth + 1) functionClass
      ++ args.flatMap (Expr.outlineAt indent (depth + 1))
  | .comment text _ => outlineLine indent depth "Comment".toList (outlineOwn text)

/-- The outlines of statements at a depth, one after the other. -/
def outlineBody (indent : Text) (depth : Nat) : List Stmt → Text
  | [] => []
  | stmt :: rest => stmt.outlineAt indent depth ++ outlineBody indent depth rest
end

/-- The outline of an expression. -/
def Expr.outline (indent : Text) (expr : Expr) : Text := expr.outlineAt indent 0

/-- The outline of a statement. -/
def Stmt.outline (indent : Text) (stmt : Stmt) : Text := stmt.outlineAt indent 0

/-- The outline of a heading. -/
def Decl.outline (indent : Text) (decl : Decl) : Text :=
  outlineLine indent 0 "Decl".toList [] ++ decl.name.outlineAt indent 1 functionClass
    ++ decl.params.flatMap (Label.outlineAt indent 1 variableClass)

/-- The indentation of outlines when none is given. -/
def defaultIndent : Text := [' ', ' ']

end LogoLang
