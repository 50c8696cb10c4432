import LogoLang.Tool.Basic

set_option autoImplicit false

/-! # The program

The command line of the tools: the first argument names the tool, the others are its own. -/

namespace LogoLang

/-- The tool of a name. -/
def Tool.ofName? (name : String) : Option Tool :=
  if name = "run" then some .drawing else if name = "transpile" then some .emitting else none

/-- Prints a text. -/
def putText (stream : IO.FS.Stream) (t : Text) : IO Unit := stream.putStr (String.ofList t)

/-- Carries out the outcome of a tool's work, and gives the exit status. -/
def Outcome.perform : Outcome → IO UInt32
  | .usage => return 2
  | .help firstLine => do
    putText (← IO.getStdout) (firstLine ++ ['\n'])
    return 0
  | .failed (.options e) => throw (IO.userError (String.ofList e.message))
  | .failed .undecodable => throw (IO.userError "the program is not valid UTF-8 text")
  | .failed .tooLarge => throw (IO.userError "a number is out of range")
  | .failed .nestedTooDeeply => throw (IO.userError "calls are nested too deeply")
  | .failed _ => throw (IO.userError "the program cannot be processed")
  | .reported errors => do
    putText (← IO.getStderr) errors
    return 1
  | .result .missing _ _ => throw (IO.userError "no path is given for the result")
  | .result .standardOutput text errors => do
    putText (← IO.getStderr) errors
    putText (← IO.getStdout) text
    return 0
  | .result (.file path) text errors => do
    putText (← IO.getStderr) errors
    IO.FS.writeBinFile (String.ofList path) (encodeText text)
    return 0

/-- The bytes of the program at a place of the machine, if it can be read. -/
def ProgramPlace.load? : ProgramPlace → IO (Option ByteArray)
  | .standardInput => do
    let text ← (← IO.getStdin).readToEnd
    return some text.toUTF8
  | .file path => try some <$> IO.FS.readBinFile (String.ofList path) catch _ => pure none

/-- Runs a tool on the files of the machine. -/
def Tool.main (tool : Tool) (arguments : List Text) : IO UInt32 := do
  if asksForHelp arguments then (Outcome.help tool.title).perform
  else
    let reading := readCommandLine arguments
    let content ← match reading.program? with
      | some operand => (ProgramPlace.ofOperand operand).load?
      | none => pure none
    (tool.answer reading content).perform

end LogoLang

def main (arguments : List String) : IO UInt32 :=
  match arguments with
  | name :: rest =>
    match LogoLang.Tool.ofName? name with
    | some tool => tool.main (rest.map String.toList)
    | none => return 2
  | [] => return 2
