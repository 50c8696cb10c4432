import LogoLang.Bindings
import LogoLang.Emit.Method
import LogoLang.Number.Decimal
import LogoLang.Run.Evaluation
import LogoLang.Traced

set_option autoImplicit false

/-! # Emitting expressions

An expression is emitted as an expression of the target language, which is written with infix
operators. Types are checked on the way: a `Scope` says for each variable whether it holds a truth
value. The trace of an emission lists the methods that the emitted code uses. -/

namespace LogoLang

/-! ## Emissions -/

/-- Why no code can be emitted for an expression or a statement. -/
inductive EmitFault where
  /-- The program is at fault. -/
  | flaw (flaw : Flaw)
  /-- The tree holds a text that was never understood. -/
  | malformed
deriving DecidableEq

/-- What an emission takes note of. -/
inductive EmitNote where
  /-- The emitted code calls a method. -/
  | uses (method : Method)
  /-- The body of a function was emitted as so many lines. -/
  | wrote (name : Text) (lines : Nat)
deriving DecidableEq, Repr

/-- An emission, which notes the methods it uses even if it fails later. -/
abbrev Emitting := Traced EmitNote EmitFault

/-- Fails with an error of a kind at a place. -/
def Emitting.refuse {α : Type} (kind : ErrorKind) (span : Span) : Emitting α :=
  Traced.fail (.flaw ⟨kind, span⟩)

/-- For each variable in scope, whether it holds a truth value. -/
abbrev Scope := Bindings Bool

/-- The code of an expression, and whether its value is a truth value. -/
structure Code where
  text : Text
  isTruth : Bool
deriving DecidableEq, Repr

/-! ## Names and calls -/

/-- The emitted name of a function. The top-level program has a name of its own. -/
def functionName (name : Text) : Text :=
  if name.isEmpty then "process".toList else "fn_".toList ++ name

/-- The emitted name of a variable. -/
def variableName (name : Text) : Text := "v_".toList ++ name

/-- Code in parentheses. -/
def parenthesized (code : Text) : Text := '(' :: code ++ [')']

/-- The code that rounds a number to single precision. -/
def roundedCode (code : Text) : Text := "_f32".toList ++ parenthesized code

/-- The code that calls a method of the turtle. -/
def emitCall (method : Method) (args : List Text) : Emitting Text := do
  Traced.log (.uses method)
  return "draw.".toList ++ method.name ++ parenthesized (Text.join ", ".toList args)

/-! ## Literals -/

/-- The code of a number in the fewest digits that give it back in single precision. -/
def shortCode (x : Float) : Text :=
  if isFinite x then Text.ofDouble (shortForSingle x)
  else "float(".toList ++ '\'' :: Text.ofDouble x ++ "')".toList

/-- The code of a number literal. It is rounded when the emitted double is not the number itself. -/
def numberCode (x : Float) : Text :=
  if !isFinite x || shortForSingle x == x then shortCode x else roundedCode (shortCode x)

/-! ## Operators -/

/-- The emitted form of an operator. -/
def BinaryOp.symbol : BinaryOp → Text
  | .add => " + ".toList
  | .sub => " - ".toList
  | .mul => " * ".toList
  | .div => " / ".toList
  | .eq => " == ".toList
  | .ne => " != ".toList
  | .lt => " < ".toList
  | .gt => " > ".toList
  | .and => " and ".toList
  | .or => " or ".toList

/-- Whether an expression is a literal zero. -/
def Expr.isZero : Expr → Bool
  | .number x _ => x == 0
  | _ => false

/-- The method that answers a question. -/
def Query.method : Query → Method
  | .x => .x
  | .y => .y
  | .heading => .direction
  | .color => .color

/-- Checks that the left and then the right operand is a truth value or, as the case may be, a
number; an operand that is not is an error of the given kind. -/
def checkOperands (wanted : Bool) (kind : ErrorKind) (left right : Expr) (a b : Code) :
    Emitting Unit :=
  if a.isTruth ≠ wanted then Emitting.refuse kind left.span
  else if b.isTruth ≠ wanted then Emitting.refuse kind right.span
  else pure ()

/-- The code of an operator between two operands. -/
def BinaryOp.emit (op : BinaryOp) (left right : Expr) (span : Span) (a b : Code) :
    Emitting Code := do
  let infixed := a.text ++ op.symbol ++ b.text
  match op.opClass with
  | .arithmetic =>
    checkOperands false .unexpectedBooleanType left right a b
    if op = .div ∧ right.isZero then Emitting.refuse .divideByZero span
    else return ⟨roundedCode infixed, false⟩
  | .equality =>
    if a.isTruth ≠ b.isTruth then Emitting.refuse .unmatchedExprType span
    else return ⟨parenthesized infixed, true⟩
  | .comparison =>
    checkOperands false .unexpectedBooleanType left right a b
    return ⟨parenthesized infixed, true⟩
  | .logic =>
    checkOperands true .unexpectedNumberType left right a b
    return ⟨parenthesized infixed, true⟩

/-! ## Expressions -/

/-- The code of an expression. -/
def Expr.emit (scope : Scope) : Expr → Emitting Code
  | .truth value _ => return ⟨Text.ofBool value, true⟩
  | .number value _ => return ⟨numberCode value, false⟩
  | .var name span =>
    match Bindings.get? scope name with
    | none => Emitting.refuse .undefinedVariable span
    | some isTruth => return ⟨variableName name, isTruth⟩
  | .malformed _ => Traced.fail .malformed
  | .query q _ => do
    let call ← emitCall q.method []
    match q with
    | .x | .y => return ⟨roundedCode call, false⟩
    | .heading | .color => return ⟨call, false⟩
  | .binary op left right span => do
    let a ← left.emit scope
    let b ← right.emit scope
    op.emit left right span a b

/-- The code of an expression that has to be a number. -/
def Expr.emitNumber (scope : Scope) (expr : Expr) : Emitting Text := do
  let code ← expr.emit scope
  if code.isTruth then Emitting.refuse .unexpectedBooleanType expr.span else return code.text

/-- The code of an expression that has to be a truth value. -/
def Expr.emitTruth (scope : Scope) (expr : Expr) : Emitting Text := do
  let code ← expr.emit scope
  if code.isTruth then return code.text else Emitting.refuse .unexpectedNumberType expr.span

/-- The codes of expressions that have to be numbers, from left to right. -/
def emitNumbers (scope : Scope) : List Expr → Emitting (List Text)
  | [] => return []
  | expr :: rest => do
    let code ← expr.emitNumber scope
    let codes ← emitNumbers scope rest
    return code :: codes

end LogoLang
