import LogoLang.Emit.Statement
import LogoLang.Turtle.Measure

set_option autoImplicit false

/-! # Emitted modules

A whole program is emitted as a module that stands alone: a helper that rounds to single precision,
one function for each function of the program and one for its top level, the class of turtles, and an
entry point. -/

namespace LogoLang

/-! ## Fixed parts -/

/-- The start of a module, with the helper that rounds. -/
def moduleHeader : String :=
  "\"\"\"Generated by logoturtle. Do not edit.\"\"\"\n" ++
  "import math\n" ++
  "import struct\n" ++
  "\n" ++
  "\n" ++
  "def _f32(value):\n" ++
  "    if math.isnan(value) or math.isinf(value):\n" ++
  "        return value\n" ++
  "    try:\n" ++
  "        return struct.unpack('f', struct.pack('f', value))[0]\n" ++
  "    except OverflowError:\n" ++
  "        return math.copysign(math.inf, value)\n"

/-- The entry point, with the size of the canvas. -/
def moduleFooter (width height : Measure) : Text :=
  "def main(width=".toList ++ width.toText ++ ", height=".toList ++ height.toText
    ++ "):\n    draw = Draw(width, height)\n    process(draw)\n    return draw\n".toList
    ++ "\n\nif __name__ == '__main__':\n    main()\n".toList

/-! ## Functions -/

/-- The first line of a function. -/
def signature (name : Text) (f : Function) : Text :=
  "def ".toList ++ functionName name
    ++ parenthesized (Text.join ", ".toList ("draw".toList :: f.paramNames.map variableName))
    ++ ":\n".toList

/-- The scope at the start of a function: its parameters, which are numbers. -/
def Function.scope (f : Function) : Scope :=
  Bindings.ofPairs (f.paramNames.map fun name => (name, false))

/-- The lines of a function's body. -/
def Function.emitLines (f : Function) (table : FunctionTable) : EmittingAt (List CodeLine) := do
  let (_, lines) ← emitBody table 1 f.scope f.body
  return closeBody 1 lines

/-- The code of a function. -/
def Function.emit (f : Function) (table : FunctionTable) (name : Text) : EmittingAt Text := do
  let lines ← f.emitLines table
  Traced.log (.wrote name lines.length)
  return signature name f ++ lines.flatMap CodeLine.toText

/-- The code of functions, one after the other. -/
def emitFunctions (table : FunctionTable) : List (Text × Function) → EmittingAt (List Text)
  | [] => return []
  | (name, f) :: rest => do
    let code ← f.emit table name
    let codes ← emitFunctions table rest
    return code :: codes

/-! ## Modules -/

/-- The methods among the notes of an emission, in the order of their names. -/
def usedMethods (notes : List EmitNote) : List Method :=
  Method.all.filter fun method => notes.contains (.uses method)

/-- The code of all functions of a program, or a failure. -/
def FunctionTable.emit (table : FunctionTable) : EmittingAt (List Text) :=
  emitFunctions table table.entries

/-- The module that is made of the code of functions. -/
def moduleText (functions : List Text) (methods : List Method) (width height : Measure) : Text :=
  Text.join "\n\n".toList
    (moduleHeader.toList :: functions ++ [turtleClass methods, moduleFooter width height])

end LogoLang
