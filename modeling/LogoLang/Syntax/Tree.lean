import LogoLang.Diagnostic.Kind

set_option autoImplicit false

/-! # Syntax trees

The parsed form of expressions, statements and declarations. A piece of text that cannot be read
becomes a leaf that holds a `Flaw`, so that reading a line always gives a tree; `firstFlaw?` finds
the flaw to report. -/

namespace LogoLang

/-! ## Places and flaws -/

/-- A place inside a line: its first position and its length. -/
structure Span where
  start : Nat
  length : Nat
deriving DecidableEq, Repr

/-- The position just after a place. -/
def Span.stop (s : Span) : Nat := s.start + s.length

/-- What is wrong with a piece of a line. -/
structure Flaw where
  kind : ErrorKind
  span : Span
deriving DecidableEq, Repr

/-! ## Expressions -/

/-- The operators with two operands. -/
inductive BinaryOp where
  | add
  | sub
  | mul
  | div
  | eq
  | ne
  | lt
  | gt
  | and
  | or
deriving DecidableEq, Repr

/-- What an expression can ask of the turtle. -/
inductive Query where
  | x
  | y
  | heading
  | color
deriving DecidableEq, Repr

/-- An expression. -/
inductive Expr where
  | truth (value : Bool) (span : Span)
  | number (value : Float) (span : Span)
  | var (name : Text) (span : Span)
  | malformed (flaw : Flaw)
  | binary (op : BinaryOp) (left right : Expr) (span : Span)
  | query (query : Query) (span : Span)
deriving DecidableEq

/-- The place of an expression. -/
def Expr.span : Expr → Span
  | .truth _ span | .number _ span | .var _ span | .binary _ _ _ span | .query _ span => span
  | .malformed flaw => flaw.span

/-- A name in a place where one is needed: the target of an assignment, a parameter, or the name of
a function. -/
inductive Label where
  | named (name : Text) (span : Span)
  | malformed (flaw : Flaw)
deriving DecidableEq, Repr

/-- The place of a label. -/
def Label.span : Label → Span
  | .named _ span => span
  | .malformed flaw => flaw.span

/-- The name of a label, if it is well formed. -/
def Label.name? : Label → Option Text
  | .named name _ => some name
  | .malformed _ => none

/-! ## Statements -/

/-- The two statements that have a body. -/
inductive BlockKind where
  | branch
  | loop
deriving DecidableEq, Repr

/-- The two statements that change a variable. -/
inductive AssignKind where
  | make
  | increase
deriving DecidableEq, Repr

/-- The commands with one numeric operand. -/
inductive Command where
  | forward
  | back
  | left
  | right
  | setPenColor
  | turn
  | setHeading
  | setX
  | setY
deriving DecidableEq, Repr

/-- A statement, with the number of its line, counted from zero. -/
inductive Stmt where
  | block (kind : BlockKind) (condition : Expr) (body : List Stmt) (line : Nat)
  | assign (kind : AssignKind) (target : Label) (value : Expr) (line : Nat)
  | pen (down : Bool) (line : Nat)
  | command (command : Command) (value : Expr) (line : Nat)
  | call (name : Label) (args : List Expr) (line : Nat)
  | comment (text : Text) (line : Nat)

/-- The line of a statement. -/
def Stmt.line : Stmt → Nat
  | .block _ _ _ line | .assign _ _ _ line | .pen _ line | .command _ _ line | .call _ _ line
  | .comment _ line => line

/-- The heading of a declaration. -/
structure Decl where
  name : Label
  params : List Label
deriving DecidableEq, Repr

/-! ## The first flaw

Trees are searched depth first, an operator's left operand before its right one, and the parts of a
statement in the order in which they are written. -/

/-- The first flaw of an expression. -/
def Expr.firstFlaw? : Expr → Option Flaw
  | .malformed flaw => some flaw
  | .binary _ left right _ => left.firstFlaw?.or right.firstFlaw?
  | .truth .. | .number .. | .var .. | .query .. => none

/-- The flaw of a label. -/
def Label.flaw? : Label → Option Flaw
  | .named .. => none
  | .malformed flaw => some flaw

/-- The first flaw of a statement's own line; the statements of a body are not looked at. -/
def Stmt.firstFlaw? : Stmt → Option Flaw
  | .block _ condition _ _ => condition.firstFlaw?
  | .assign _ target value _ => target.flaw?.or value.firstFlaw?
  | .command _ value _ => value.firstFlaw?
  | .call name args _ => name.flaw?.or (args.findSome? Expr.firstFlaw?)
  | .pen .. | .comment .. => none

/-- The first flaw of a heading. -/
def Decl.firstFlaw? (decl : Decl) : Option Flaw :=
  decl.name.flaw?.or (decl.params.findSome? Label.flaw?)

end LogoLang
