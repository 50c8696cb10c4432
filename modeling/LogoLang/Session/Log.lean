import LogoLang.Emit.Module
import LogoLang.Program.Assembly
import LogoLang.Run.Machine

set_option autoImplicit false

/-! # Log messages

The messages that the stages of the work leave behind, in order. They are told from what the stages
return. -/

namespace LogoLang

/-- How important a message is. -/
inductive Severity where
  | debug
  | info
  | warning
  | error
  | critical
deriving DecidableEq, Repr

/-- Severities as numbers. -/
def Severity.rank : Severity → Nat
  | .debug => 10
  | .info => 20
  | .warning => 30
  | .error => 40
  | .critical => 50

/-- The name of a severity. -/
def Severity.name : Severity → Text
  | .debug => "DEBUG".toList
  | .info => "INFO".toList
  | .warning => "WARNING".toList
  | .error => "ERROR".toList
  | .critical => "CRITICAL".toList

/-- The severities, the least first. -/
def Severity.all : List Severity := [.debug, .info, .warning, .error, .critical]

/-- The severity of a name. -/
def Severity.ofName? (name : Text) : Option Severity := Severity.all.find? (·.name = name)

/-- A message. -/
structure LogRecord where
  severity : Severity
  message : Text
deriving DecidableEq, Repr

/-- The messages that are at least as important as `level`. -/
def recordsFrom (level : Severity) (records : List LogRecord) : List LogRecord :=
  records.filter (level.rank ≤ ·.severity.rank)

/-- A line number, counted from one. -/
def lineNumberText (line : Nat) : Text := "Line ".toList ++ Text.ofNat (line + 1) ++ ": ".toList

/-! ## Messages of the stages -/

/-- The names of labels. -/
def labelNames (labels : List Label) : List Text := labels.filterMap Label.name?

/-- The message about a heading. -/
def headingRecord (line : Nat) (decl : Decl) : LogRecord :=
  ⟨.debug, lineNumberText line ++ "declaring ".toList ++ decl.name.name?.getD []
    ++ '(' :: Text.join ", ".toList (labelNames decl.params) ++ [')']⟩

/-- The message about lines that are balanced. -/
def balanceRecord (lines : List Text) : LogRecord :=
  ⟨.debug, "Structure of ".toList ++ Text.ofNat lines.length ++ " lines is balanced".toList⟩

/-- The message about a program in which nothing stands at the top level. -/
def emptyProgramRecord : LogRecord := ⟨.warning, "Program has no top-level statements".toList⟩

/-- The messages of parsing. -/
def parseRecords (lines : List Text) : List LogRecord :=
  match checkBalance lines with
  | .error _ => []
  | .ok () =>
    let headings := (Assembly.ofLines lines).1.headings.reverse.map fun (line, decl) =>
      headingRecord line decl
    let warnings := match assemble lines with
      | .ok table => if (table.mainBody?.getD []).isEmpty then [emptyProgramRecord] else []
      | .error _ => []
    balanceRecord lines :: headings ++ warnings

/-- The message about a parsed program. -/
def parsedRecord (source : Text) (table : FunctionTable) : LogRecord :=
  ⟨.debug, "Parsed ".toList ++ source ++ ": ".toList ++ Text.ofNat (table.size - 1)
    ++ " functions".toList⟩

/-- The message about an event of a run; only calls have one. -/
def Event.record? : Event → Option LogRecord
  | .entered line name args =>
    some ⟨.debug, lineNumberText line ++ "calling ".toList ++ name ++ Value.tupleToText args⟩
  | _ => none

/-- The message about a note of an emission; only functions have one. -/
def EmitNote.record? : EmitNote → Option LogRecord
  | .wrote name lines =>
    some ⟨.debug, "Transpiled function ".toList ++ name.quoted ++ " (".toList ++ Text.ofNat lines
      ++ " lines)".toList⟩
  | .uses _ => none

end LogoLang
