import LogoLang.Number.Single
import LogoLang.Run.Environment
import LogoLang.Traced
import LogoLang.Turtle.Basic

set_option autoImplicit false

/-! # Evaluation of expressions

The value of an expression, given the variables and the turtle. Evaluation changes neither; its trace
lists the questions that it asks the turtle. Operands are evaluated from left to right. -/

namespace LogoLang

/-- Why a program cannot go on. -/
inductive Refusal where
  /-- The program is at fault. -/
  | flaw (flaw : Flaw)
  /-- The turtle cannot do or answer what it is told to. -/
  | turtle (fault : TurtleFault)
  /-- The tree holds a text that was never understood. -/
  | malformed
deriving DecidableEq

/-- A computation that asks questions and ends with a value or a refusal. -/
abbrev Asking := Traced Query Refusal

/-- The refusal of a kind at a place. -/
def refusal (kind : ErrorKind) (span : Span) : Refusal := .flaw ⟨kind, span⟩

/-! ## Types -/

/-- The number that a value is; a truth value is at fault. -/
def Value.asNumber (span : Span) : Value → Except Refusal Float
  | .number x => .ok x
  | .truth _ => .error (refusal .unexpectedBooleanType span)

/-- The truth value that a value is; a number is at fault. -/
def Value.asTruth (span : Span) : Value → Except Refusal Bool
  | .truth b => .ok b
  | .number _ => .error (refusal .unexpectedNumberType span)

/-! ## Leaves -/

/-- The value of a variable. -/
def Environment.read (env : Environment) (name : Text) (span : Span) : Except Refusal Value :=
  match Bindings.get? env name with
  | none => .error (refusal .undefinedVariable span)
  | some none => .error (refusal .undefinedVariableValue span)
  | some (some value) => .ok value

/-- The number that a turtle's answer is. Coordinates are rounded to single precision. -/
def Turtle.measure (t : Turtle) : Query → Except Refusal Float
  | .x => .ok (single t.x)
  | .y => .ok (single t.y)
  | .heading =>
    match doubleOfInt? t.direction with
    | some x => .ok x
    | none => .error (.turtle .headingTooLarge)
  | .color => .ok (Float.ofNat t.color.val)

/-! ## Operators -/

/-- How the operands of an operator are treated. -/
inductive OpClass where
  | arithmetic
  | equality
  | comparison
  | logic
deriving DecidableEq, Repr

/-- The class of an operator. -/
def BinaryOp.opClass : BinaryOp → OpClass
  | .add | .sub | .mul | .div => .arithmetic
  | .eq | .ne => .equality
  | .lt | .gt => .comparison
  | .and | .or => .logic

/-- The double that an arithmetic operator computes. -/
def BinaryOp.compute (a b : Float) : BinaryOp → Float
  | .sub => a - b
  | .mul => a * b
  | .div => a / b
  | _ => a + b

/-- The result of an arithmetic operator, rounded to single precision. Nothing is divided by zero. -/
def BinaryOp.arithmetic (op : BinaryOp) (span : Span) (a b : Float) : Except Refusal Float :=
  if op = .div ∧ b == 0 then .error (refusal .divideByZero span)
  else .ok (single (op.compute a b))

/-- Whether two values of one type are equal; `none` for values of two types. -/
def Value.equal? : Value → Value → Option Bool
  | .number a, .number b => some (a == b)
  | .truth a, .truth b => some (a == b)
  | _, _ => none

/-- The result of a comparison of numbers. -/
def BinaryOp.compare (op : BinaryOp) (a b : Float) : Bool :=
  if op = .gt then decide (b < a) else decide (a < b)

/-- The result of an operator on truth values. -/
def BinaryOp.combine (op : BinaryOp) (a b : Bool) : Bool := if op = .or then a || b else a && b

/-- Applies an operator to two values; `left` and `right` are the places of its operands, and `span`
is that of the whole expression. -/
def BinaryOp.apply (op : BinaryOp) (left right span : Span) (a b : Value) :
    Except Refusal Value :=
  match op.opClass with
  | .arithmetic => do
    let x ← a.asNumber span
    let y ← b.asNumber span
    return .number (← op.arithmetic span x y)
  | .equality =>
    match a.equal? b with
    | some same => .ok (.truth (if op = .ne then !same else same))
    | none => .error (refusal .unmatchedExprType span)
  | .comparison => do
    let x ← a.asNumber left
    let y ← b.asNumber right
    return .truth (op.compare x y)
  | .logic => do
    let x ← a.asTruth left
    let y ← b.asTruth right
    return .truth (op.combine x y)

/-- What an operator asks of its left operand before its right one is evaluated: arithmetic wants a
number. -/
def BinaryOp.checkLeft (op : BinaryOp) (span : Span) (a : Value) : Except Refusal Unit :=
  match op.opClass with
  | .arithmetic => (a.asNumber span).map fun _ => ()
  | _ => .ok ()

/-! ## Expressions -/

/-- The value of an expression. -/
def Expr.eval (env : Environment) (t : Turtle) : Expr → Asking Value
  | .truth value _ => pure (.truth value)
  | .number value _ => pure (.number value)
  | .var name span => .ofExcept (env.read name span)
  | .malformed _ => .fail .malformed
  | .query q _ => do
    Traced.log q
    let x ← .ofExcept (t.measure q)
    return .number x
  | .binary op left right span => do
    let a ← left.eval env t
    .ofExcept (op.checkLeft span a)
    let b ← right.eval env t
    .ofExcept (op.apply left.span right.span span a b)

/-- The number that an expression evaluates to. -/
def Expr.evalNumber (env : Environment) (t : Turtle) (expr : Expr) : Asking Float := do
  let v ← expr.eval env t
  .ofExcept (v.asNumber expr.span)

/-- The truth value that an expression evaluates to. -/
def Expr.evalTruth (env : Environment) (t : Turtle) (expr : Expr) : Asking Bool := do
  let v ← expr.eval env t
  .ofExcept (v.asTruth expr.span)

/-- The integer that an expression evaluates to. -/
def Expr.evalInteger (env : Environment) (t : Turtle) (expr : Expr) : Asking Int := do
  let x ← expr.evalNumber env t
  match integerOf? x with
  | some n => return n
  | none => .fail (refusal .nonIntegerValue expr.span)

/-- The values of expressions, from left to right. -/
def evalAll (env : Environment) (t : Turtle) : List Expr → Asking (List Value)
  | [] => pure []
  | expr :: rest => do
    let v ← expr.eval env t
    let vs ← evalAll env t rest
    return v :: vs

end LogoLang
