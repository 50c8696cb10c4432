import LogoLang.Session.Basic
import LogoLang.Tool.Arguments
import LogoLang.Tool.Folder

set_option autoImplicit false

/-! # The command-line tools

One tool draws a program and one emits it as a module. Both read their program from a file and write their
result to a file or to the standard output; a diagnostic goes to the standard error. Nothing is
written before the whole result is there. -/

namespace LogoLang

/-- The tools. -/
inductive Tool where
  | drawing
  | emitting
deriving DecidableEq, Repr

/-- The first line of a tool's help. -/
def Tool.title : Tool → Text
  | .drawing => "Logo Runner - Draws a Logo program and writes the result as SVG".toList
  | .emitting =>
    "Logo Transpiler - Translates a Logo program into a standalone Python module".toList

/-- The first line of the description of a tool's arguments. -/
def Tool.usageLine : Tool → Text
  | .drawing =>
    "usage: python -m logoturtle.tools.run [-h] [--width WIDTH] [--height HEIGHT]".toList
  | .emitting => "usage: python -m logoturtle.tools.transpile [-h] [--width WIDTH]".toList

/-- How the work of a tool ends before anything is written. -/
inductive Outcome where
  /-- The arguments cannot be understood, or the program cannot be read. -/
  | usage
  /-- Help is asked for; it starts with the given line. -/
  | help (firstLine : Text)
  /-- A failure that is not reported. -/
  | failed (failure : Failure)
  /-- A failure that is reported on the standard error. -/
  | reported (errors : Text)
  /-- A result, and what goes to the standard error. -/
  | result (destination : Destination) (text errors : Text)

/-- The report of a failure, if it is one that the tool reports. -/
def Tool.report? : Tool → Failure → Option Text
  | _, .diagnostic d => some d.message
  | .drawing, .nestedTooDeeply => some "Run Error: Function calls nested too deeply\n".toList
  | _, _ => none

/-- The messages and the result of a tool's work on a session. -/
def Tool.work (tool : Tool) (s : Session) : List LogRecord × Except Failure Text :=
  match tool with
  | .drawing =>
    match s.run with
    | .error failure => ([], .error failure)
    | .ok run => (run.records, run.turtle.map Turtle.toSvg)
  | .emitting =>
    let emission := s.emit
    (emission.records, emission.result)

/-- The messages of several tools that work on one session, and the failure that ends their work, if
there is one. -/
def Session.workWith (s : Session) : List Tool → List LogRecord × Option Failure
  | [] => ([], none)
  | tool :: rest =>
    match tool.work s with
    | (records, .error failure) => (records, some failure)
    | (records, .ok _) =>
      let (others, failure) := s.workWith rest
      (records ++ others, failure)

/-- The lines of messages that are shown. -/
def shownRecords (options : Options) (records : List LogRecord) : Text :=
  (recordsFrom (options.level .critical) records).flatMap fun r => r.message ++ ['\n']

/-- The named options of a request. -/
def Request.given (r : Request) : Bindings Setting := [
  (OptionName.width.toText, r.width), (OptionName.height.toText, r.height),
  (OptionName.debug.toText, .flag r.debug),
  (OptionName.callFrames.toText, .flag r.callFrames)]

/-- The outcome of a failure after some messages. -/
def Tool.fail (tool : Tool) (messages : Text) (failure : Failure) : Outcome :=
  match tool.report? failure with
  | some report => .reported (messages ++ report)
  | none => .failed failure

/-- The work of a tool on a program that has been read. -/
def Tool.process (tool : Tool) (r : Request) (name : Text) (content : ByteArray) : Outcome :=
  match Options.ofGiven r.given with
  | .error e => .failed (.options e)
  | .ok options =>
    let (records, started) := Session.startFile options name content
    match started with
    | .error failure => tool.fail (shownRecords options records) failure
    | .ok s =>
      let (workRecords, result) := tool.work s
      let messages := shownRecords options (records ++ workRecords)
      match result with
      | .error failure => tool.fail messages failure
      | .ok text => .result r.out text messages

/-- Where a tool finds a program. -/
inductive ProgramPlace where
  | standardInput
  | file (path : Text)
deriving DecidableEq, Repr

/-- The place that an operand names; a single dash names the standard input. -/
def ProgramPlace.ofOperand (operand : Text) : ProgramPlace :=
  if operand = ['-'] then .standardInput else .file operand

/-- The name of the source that is found at a place. -/
def ProgramPlace.sourceName : ProgramPlace → Text
  | .standardInput => "<stdin>".toList
  | .file path => path

/-- The bytes of the program at a place, where `input` is what the standard input holds. -/
def ProgramPlace.read (folder : Folder) (input : ByteArray) :
    ProgramPlace → Except PathFault ByteArray
  | .standardInput => .ok input
  | .file path => folder.read path

/-- Whether the arguments ask plainly for help. -/
def asksForHelp (arguments : List Text) : Bool :=
  arguments.isEmpty || arguments.contains "-h".toList || arguments.contains "--help".toList

/-- What a tool makes of a command line. The program that it names is read as soon as its
operand is met; `content` is what it holds, if it can be read. -/
def Tool.answer (tool : Tool) (reading : Reading) (content : Option ByteArray) : Outcome :=
  match reading, content with
  | .usage, _ | .help (some _), none | .request .., none => .usage
  | .help _, _ => .help tool.usageLine
  | .request r operand, some content =>
    tool.process r (ProgramPlace.ofOperand operand).sourceName content

/-- The work of a tool in a folder. -/
def Tool.outcome (tool : Tool) (arguments : List Text) (folder : Folder) (input : ByteArray) :
    Outcome :=
  if asksForHelp arguments then .help tool.title
  else
    let reading := readCommandLine arguments
    tool.answer reading do
      let operand ← reading.program?
      ((ProgramPlace.ofOperand operand).read folder input).toOption

/-! ## Writing the result -/

/-- How a tool ends. -/
inductive ToolEnd where
  | usage
  | help (firstLine : Text)
  | failed (failure : Failure)
  | exited (status : Nat) (output errors : Text)

/-- Ends the work of a tool: its result goes to the standard output or to a file of the folder. -/
def Outcome.conclude (folder : Folder) : Outcome → ToolEnd × Folder
  | .usage => (.usage, folder)
  | .help firstLine => (.help firstLine, folder)
  | .failed failure => (.failed failure, folder)
  | .reported errors => (.exited 1 [] errors, folder)
  | .result .standardOutput text errors => (.exited 0 text errors, folder)
  | .result .missing _ _ => (.failed (.path .missing), folder)
  | .result (.file path) text errors =>
    match folder.write path (encodeText text) with
    | .error fault => (.failed (.path fault), folder)
    | .ok folder => (.exited 0 [] errors, folder)

/-- Runs a tool in a folder. -/
def Tool.runIn (tool : Tool) (arguments : List Text) (folder : Folder) (input : ByteArray) :
    ToolEnd × Folder :=
  (tool.outcome arguments folder input).conclude folder

end LogoLang
