import LogoLang.Text.Basic

set_option autoImplicit false

/-! # Kinds of error

What can be wrong with a program, and the fixed wording that goes with it. Each kind belongs to a
category, which decides the stage that reports it unless the stage itself says otherwise. -/

namespace LogoLang

/-- What is wrong with a piece of a program. -/
inductive ErrorKind where
  | missingLeftBracket
  | missingRightBracket
  | missingWhileOrIf
  | missingTo
  | missingEnd
  | declWrongPosition
  | repeatFunctionName
  | invalidName
  | missingName
  | unexpectedExpr
  | invalidNumber
  | missingOperand
  | unexpectedExtraOperand
  | unexpectedAssign
  | unexpectedBooleanType
  | unexpectedNumberType
  | unmatchedExprType
  | nonIntegerValue
  | undefinedColor
  | divideByZero
  | undefinedVariable
  | undefinedVariableValue
  | undefinedFunction
  | tooManyArguments
  | missingArguments
deriving DecidableEq, Repr

/-- The aspect of a program that an error is about. -/
inductive ErrorCategory where
  | structural
  | naming
  | grammar
  | typing
  | binding
deriving DecidableEq, Repr

/-- The name under which an error kind is shown. -/
def ErrorKind.label : ErrorKind → Text
  | .missingLeftBracket => "MissingLeftBracket".toList
  | .missingRightBracket => "MissingRightBracket".toList
  | .missingWhileOrIf => "MissingWhileOrIf".toList
  | .missingTo => "MissingTo".toList
  | .missingEnd => "MissingEnd".toList
  | .declWrongPosition => "DeclWrongPosition".toList
  | .repeatFunctionName => "RepeatFunctionName".toList
  | .invalidName => "InvalidName".toList
  | .missingName => "MissingName".toList
  | .unexpectedExpr => "UnexpectedExpr".toList
  | .invalidNumber => "InvalidNumber".toList
  | .missingOperand => "MissingOperand".toList
  | .unexpectedExtraOperand => "UnexpectedExtraOperand".toList
  | .unexpectedAssign => "UnexpectedAssign".toList
  | .unexpectedBooleanType => "UnexpectedBooleanType".toList
  | .unexpectedNumberType => "UnexpectedNumberType".toList
  | .unmatchedExprType => "UnmatchedExprType".toList
  | .nonIntegerValue => "NonIntegerValueError".toList
  | .undefinedColor => "UnDefinedColor".toList
  | .divideByZero => "DivideByZero".toList
  | .undefinedVariable => "UnDefinedVariable".toList
  | .undefinedVariableValue => "UnDefinedVariableValue".toList
  | .undefinedFunction => "UnDefinedFunction".toList
  | .tooManyArguments => "TooManyArguments".toList
  | .missingArguments => "MissingArguments".toList

/-- The kinds in the order of their declaration. -/
def ErrorKind.all : List ErrorKind := [
  .missingLeftBracket, .missingRightBracket, .missingWhileOrIf, .missingTo, .missingEnd,
  .declWrongPosition, .repeatFunctionName, .invalidName, .missingName, .unexpectedExpr,
  .invalidNumber, .missingOperand, .unexpectedExtraOperand, .unexpectedAssign,
  .unexpectedBooleanType, .unexpectedNumberType, .unmatchedExprType, .nonIntegerValue,
  .undefinedColor, .divideByZero, .undefinedVariable, .undefinedVariableValue, .undefinedFunction,
  .tooManyArguments, .missingArguments]

/-- The category of an error kind. -/
def ErrorKind.category : ErrorKind → ErrorCategory
  | .missingLeftBracket | .missingRightBracket | .missingWhileOrIf | .missingTo | .missingEnd
  | .declWrongPosition | .repeatFunctionName => .structural
  | .invalidName | .missingName => .naming
  | .unexpectedExpr | .invalidNumber | .missingOperand | .unexpectedExtraOperand
  | .unexpectedAssign => .grammar
  | .unexpectedBooleanType | .unexpectedNumberType | .unmatchedExprType | .nonIntegerValue
  | .undefinedColor | .divideByZero => .typing
  | .undefinedVariable | .undefinedVariableValue | .undefinedFunction | .tooManyArguments
  | .missingArguments => .binding

/-- The wording of an error kind: a headline, a line about the marked place, and advice. -/
structure ErrorWording where
  headline : String
  detail : String
  advice : String

/-- The wording of each kind. -/
def ErrorKind.wording : ErrorKind → ErrorWording
  | .unexpectedExtraOperand =>
    ⟨"Unexpected extra operands",
      "An unexpected extra operand appears that is not needed in the expression",
      "Check the format of each command and remove redundant operand"⟩
  | .invalidNumber =>
    ⟨"Invalid number", "Could not convert to float", "Try using a valid number"⟩
  | .unexpectedExpr =>
    ⟨"Unexpected Expression",
      "Could not convert to number, variable or system variable.",
      "If it is a variable, the format is `:\x7b variable_name \x7d`.\n" ++
      "If it is a number, the format is `\"\x7b number \x7d`.\n" ++
      "If it is a system variable, only `XCOR`, `YCOR`, `COLOR`, `HEADING` are allowed."⟩
  | .missingLeftBracket =>
    ⟨"Missing left bracket", "Expected `[`, found `...`",
      "Add a left bracket `[` to end of the `IF` or `WHILE` statement."⟩
  | .missingRightBracket =>
    ⟨"Missing right bracket", "Expected `]`, found `...`",
      "Add a right bracket `]` in a new line to end the `IF` or `WHILE` statement."⟩
  | .missingOperand =>
    ⟨"Missing Operand", "Expected Operand, found `...`",
      "Check the format of each command and add the missing operand."⟩
  | .unexpectedAssign =>
    ⟨"Unexpected Assignment format", "Unsatisfied the requirements of the assignment format",
      "Check the format of the variable name, the format is `\"\x7b variable_name \x7d`."⟩
  | .missingEnd =>
    ⟨"Missing END", "Expected `END`, found `...`", "Add `END` to end the function declaration."⟩
  | .missingName =>
    ⟨"Missing Function Name", "Missing the name of the function",
      "Add a valid function name to the function declaration."⟩
  | .invalidName =>
    ⟨"Invalid Name", "Invalid format of the function or variable name",
      "Names start with a letter or `_`, followed by letters, digits or `_`."⟩
  | .missingTo =>
    ⟨"Missing Function declaration", "Missing the `TO` Declaration above the `END`",
      "Add `TO` to start the function declaration."⟩
  | .missingWhileOrIf =>
    ⟨"Missing `IF` or `WHILE`", "Missing the `WHILE` or `IF` Condition Declaration above the `]`",
      "Add `IF` or `WHILE` to start the condition declaration."⟩
  | .declWrongPosition =>
    ⟨"Wrong Position of Function Declaration",
      "Function declaration cannot be placed inside the `IF` or `WHILE` statement",
      "Move the function declaration outside the `IF` or `WHILE` statement."⟩
  | .repeatFunctionName =>
    ⟨"Repeat Function Name", "Function name already exists",
      "Change the function name to a unique name."⟩
  | .unexpectedNumberType =>
    ⟨"Unexpected `number` type in expression",
      "Expected a `boolean` expression, found a `numeric` expression.",
      "Replace with an expression that returns a boolean, choosing from " ++
      "`EQ`, `NE`, `GT`, `LT`, `AND`, or `OR`."⟩
  | .unexpectedBooleanType =>
    ⟨"Unexpected `boolean` type in expression",
      "Expected a `numeric` expression, found a `boolean` expression.",
      "Replace with an expression that returns a number, choosing from " ++
      "a number, a variable, `+`, `-`, `*`, `/`, `XCOR`, `YCOR`, `HEADING`, or `COLOR`."⟩
  | .divideByZero =>
    ⟨"Divide by zero error", "Cannot divide by zero.",
      "Change the divisor to a non-zero value or check the variable value."⟩
  | .unmatchedExprType =>
    ⟨"Unmatched expression type", "Cannot compare type `boolean` with type `number`",
      "Change the expression to match the other expression type."⟩
  | .nonIntegerValue =>
    ⟨"Non-integer value error", "Expected an integer value, found a value with a fractional part.",
      "Change the value to an integer value or check the variable value."⟩
  | .undefinedColor =>
    ⟨"Undefined color error", "Color range only pick integer value from 0 to 15",
      "Change the color value to an integer value from 0 to 15."⟩
  | .undefinedVariable =>
    ⟨"Undefined variable error", "Variable is not defined.",
      "Use `MAKE` to define the variable before using it."⟩
  | .undefinedVariableValue =>
    ⟨"Undefined variable value error", "Variable value is not defined.",
      "This value may be defined in the arguments of `TO`, but its specific value " ++
      "has not been defined yet and cannot be used."⟩
  | .undefinedFunction =>
    ⟨"Undefined function error", "Function is not defined.",
      "Define the `TO` function before using it."⟩
  | .tooManyArguments =>
    ⟨"Too many arguments error", "Too many arguments.",
      "Remove the extra arguments from the function call."⟩
  | .missingArguments =>
    ⟨"Missing arguments error", "Missing arguments in function call.",
      "Add the missing arguments to the function call."⟩

end LogoLang
