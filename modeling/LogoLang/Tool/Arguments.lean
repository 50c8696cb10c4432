import LogoLang.Number.Literal
import LogoLang.Session.Options

set_option autoImplicit false

/-! # Command-line arguments

The arguments of the tools: the file of a program, and options in long or short form. A long option
may be cut short as long as it stays the only one, and its value may follow an equals sign. A short
option may be followed by its value at once, and short options without a value may share one dash.
After `--` everything is an operand.

Arguments that nothing takes are an error only once all others have been taken, so that a request for
help among them is still met. -/

namespace LogoLang

/-! ## The options of the tools -/

/-- The options of the tools. -/
inductive ToolOption where
  | help
  | width
  | height
  | debug
  | callFrames
  | out
deriving DecidableEq, Repr

/-- Whether an option has a value. -/
def ToolOption.hasValue : ToolOption → Bool
  | .width | .height | .out => true
  | .help | .debug | .callFrames => false

/-- The spellings of the options. -/
def optionSpellings : Bindings ToolOption := [
  ("-h".toList, .help), ("--help".toList, .help), ("--width".toList, .width),
  ("--height".toList, .height), ("-d".toList, .debug), ("--debug".toList, .debug),
  ("--call-frames".toList, .callFrames), ("-o".toList, .out), ("--out".toList, .out)]

/-! ## Kinds of arguments -/

/-- What an argument is read as. An option may have a value attached to it. -/
inductive Argument where
  | operand (t : Text)
  | marker
  | option (option : ToolOption) (long : Bool) (attached : Option Text)
  /-- An argument in the form of an option that is none of the tools'. -/
  | foreign
deriving DecidableEq, Repr

/-- The text without a line feed at its end. -/
def dropLineFeed (t : Text) : Text := if t.getLast? = some '\n' then t.dropLast else t

/-- Whether a text is a negative number without a power of ten; a line feed may follow. -/
def isNegativeNumber (t : Text) : Bool :=
  let isDigit := fun c => (plainDigit c).isDigit
  match dropLineFeed t with
  | '-' :: rest =>
    match rest.dropWhile isDigit with
    | [] => !rest.isEmpty
    | '.' :: places => !places.isEmpty && places.all isDigit
    | _ => false
  | _ => false

/-- Whether a spelling has two dashes. -/
def isLong (spelling : Text) : Bool := "--".toList.isPrefixOf spelling

/-- Cuts a text at its first equals sign. -/
def splitAssignment (t : Text) : Text × Option Text :=
  match t.dropWhile (· != '=') with
  | [] => (t, none)
  | _ :: value => (t.takeWhile (· != '='), some value)

/-- The options that a text with a dash may be short for: a long option that it starts, or a short one
with its value attached. -/
def abbreviated (t : Text) : List Argument :=
  if isLong t then
    let (start, attached) := splitAssignment t
    optionSpellings.filterMap fun (spelling, o) =>
      if start.isPrefixOf spelling then some (.option o true attached) else none
  else
    optionSpellings.filterMap fun (spelling, o) =>
      if spelling = t.take 2 then some (.option o false (some (t.drop 2))) else none

/-- Reads an argument before a `--`; `none` is an argument that is short for several options. -/
def Argument.of? (t : Text) : Option Argument :=
  if t.head? ≠ some '-' ∨ t.length = 1 then some (.operand t)
  else
    let (start, attached) := splitAssignment t
    match optionSpellings.get? t, optionSpellings.get? start with
    | some o, _ => some (.option o (isLong t) none)
    | none, some o => some (.option o (isLong start) attached)
    | none, none =>
      match abbreviated t with
      | [argument] => some argument
      | _ :: _ :: _ => none
      | [] => some (if isNegativeNumber t ∨ t.contains ' ' then .operand t else .foreign)

/-- Reads all arguments, none of which may be short for several options. -/
def readArguments? : List Text → Option (List Argument)
  | [] => some []
  | t :: rest =>
    if t = "--".toList then some (.marker :: rest.map .operand)
    else do
      let argument ← Argument.of? t
      let others ← readArguments? rest
      return argument :: others

/-! ## The request -/

/-- Where a result goes. -/
inductive Destination where
  | standardOutput
  | file (path : Text)
  /-- A file was asked for, but its path was left out. -/
  | missing
deriving DecidableEq, Repr

/-- What the arguments taken so far ask for. -/
structure Request where
  width : Setting
  height : Setting
  debug : Bool
  callFrames : Bool
  out : Destination
  program : Option Text
  /-- There was an argument that nothing takes. -/
  surplus : Bool

/-- The request of no arguments. -/
def Request.empty : Request := ⟨.int 400, .int 400, false, false, .standardOutput, none, false⟩

/-- Takes an operand. There is one, and it names the program. -/
def Request.takeOperand (r : Request) (t : Text) : Request :=
  if r.program.isSome then { r with surplus := true } else { r with program := some t }

/-! ## Options with their values -/

/-- The options that a dash with attached text stands for: as long as they have no value, each further
character is an option of its own. -/
def cluster : ToolOption → Text → Option (List (ToolOption × Option Text))
  | option, [] => some [(option, none)]
  | option, c :: rest =>
    if option.hasValue then some [(option, some (c :: rest))]
    else do
      let next ← optionSpellings.get? ['-', c]
      let others ← cluster next rest
      return (option, none) :: others

/-- The options that an argument stands for. -/
def optionsOf (option : ToolOption) (long : Bool) :
    Option Text → Option (List (ToolOption × Option Text))
  | none => some [(option, none)]
  | some attached =>
    if option.hasValue then some [(option, some attached)]
    else if long || attached.isEmpty then none
    else cluster option attached

/-- Whether one of the options needs the argument that follows as its value. -/
def needValue (options : List (ToolOption × Option Text)) : Bool :=
  options.any fun (option, attached) => option.hasValue && attached.isNone

/-- The value that an option is given. The marker is dropped also as a value, so that none is left. -/
def givenValue (t : Text) : Option Text := if t = "--".toList then none else some t

/-- The setting for a measure, which has to be a number. -/
def measureSetting? : Option Text → Option Setting
  | none => some .empty
  | some t => (readMeasure? t).map .float

/-- Gives an option its value. -/
def Request.setValue (r : Request) (value : Option Text) : ToolOption → Option Request
  | .width => (measureSetting? value).map fun s => { r with width := s }
  | .height => (measureSetting? value).map fun s => { r with height := s }
  | .out => some { r with out := (value.map .file).getD .missing }
  | _ => none

/-! ## The command line -/

/-- The outcome of reading a command line. Help may be asked for after the operand that names the
program. -/
inductive Reading where
  | usage
  | help (program : Option Text)
  | request (r : Request) (program : Text)

/-- Takes options one after the other. `next` is the argument that follows. -/
def Request.takeOptions (r : Request) (next : Text) :
    List (ToolOption × Option Text) → Except Reading Request
  | [] => .ok r
  | (.help, _) :: _ => .error (.help r.program)
  | (.debug, _) :: rest => { r with debug := true }.takeOptions next rest
  | (.callFrames, _) :: rest => { r with callFrames := true }.takeOptions next rest
  | (option, attached) :: rest =>
    match r.setValue (givenValue (attached.getD next)) option with
    | some r => r.takeOptions next rest
    | none => .error .usage

/-- The request that is left when all arguments are taken. -/
def Request.finish (r : Request) : Reading :=
  match r.program with
  | some program => if r.surplus then .usage else .request r program
  | none => .usage

/-- Takes the arguments one after the other. A marker goes with the operand before or after it. -/
def Request.take (r : Request) : List Argument → Reading
  | [] => r.finish
  | .operand t :: .marker :: rest => (r.takeOperand t).take rest
  | .operand t :: rest => (r.takeOperand t).take rest
  | .marker :: .operand t :: rest => (r.takeOperand t).take rest
  | .marker :: _ => .usage
  | .foreign :: rest => { r with surplus := true }.take rest
  | .option o long attached :: rest =>
    match optionsOf o long attached with
    | none => .usage
    | some options =>
      match needValue options, rest with
      | true, .operand next :: rest =>
        match r.takeOptions next options with
        | .ok r => r.take rest
        | .error reading => reading
      | true, _ => .usage
      | false, rest =>
        match r.takeOptions [] options with
        | .ok r => r.take rest
        | .error reading => reading

/-- Reads a command line. -/
def readCommandLine (arguments : List Text) : Reading :=
  match readArguments? arguments with
  | none => .usage
  | some arguments => Request.empty.take arguments

/-- The operand that names the program to be read, if there is one. -/
def Reading.program? : Reading → Option Text
  | .usage => none
  | .help program => program
  | .request _ program => some program

end LogoLang
