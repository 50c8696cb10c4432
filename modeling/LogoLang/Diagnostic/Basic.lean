import LogoLang.Diagnostic.Kind
import LogoLang.Text.Lines

set_option autoImplicit false

/-! # Diagnostics

A diagnostic is one failure with its place in the source. It is shown under a headline with line and
column, as the source lines with the place underlined, and the wording of its kind. -/

namespace LogoLang

/-- The part of the work that reports an error. -/
inductive Stage where
  | unspecified
  | compiling
  | running
  | emitting
deriving DecidableEq, Repr

/-- The words that a stage's reports start with. -/
def Stage.heading : Stage → String
  | .unspecified => "Error"
  | .compiling => "Compile Error"
  | .running => "Code Generation Error"
  | .emitting => "Transpiler Error"

/-- The stage that reports errors of a category when none is named. -/
def ErrorCategory.stage : ErrorCategory → Stage
  | .structural | .naming | .grammar => .compiling
  | .typing | .binding => .running

/-- A failure at a place in a program. The source is the line at fault, or two lines for an error of
structure; the line number counts from one, and is zero at the end of the input. -/
structure Diagnostic where
  stage : Stage
  kind : ErrorKind
  source : Text
  line : Int
  start : Nat
  length : Int
deriving DecidableEq, Repr

/-- A diagnostic whose start is moved into the source if it lies outside. -/
def Diagnostic.at (stage : Stage) (kind : ErrorKind) (source : Text) (line start length : Int) :
    Diagnostic :=
  ⟨stage, kind, source, line, (min (max start 0) source.length).toNat, length⟩

/-- The column of a diagnostic, counted from one. -/
def Diagnostic.column (d : Diagnostic) : Nat := d.start + 1

/-! ## The marked source -/

/-- The line that underlines a place: spaces to the column of the place, with tabs expanded, and a
caret for each of its characters, at least one. -/
def underline (before : Text) (length : Int) : Text :=
  Text.spaces (Text.expandTabs before).length ++ List.replicate (max length 1).toNat '^'

/-- The lines with the underline after the one that holds the given position; `offset` is the
position at which the first of them starts. -/
def markLines (start : Nat) (length : Int) : Nat → List Text → List Text
  | _, [] => []
  | offset, line :: rest =>
    if offset ≤ start ∧ start ≤ offset + line.length then
      line :: underline (line.take (start - offset)) length :: rest
    else line :: markLines start length (offset + line.length + 1) rest

/-- The source lines with the place underlined, each ended by a line feed. -/
def Diagnostic.context (d : Diagnostic) : Text :=
  Text.join ['\n'] (markLines d.start d.length 0 (Text.splitOn '\n' d.source)) ++ ['\n']

/-- The whole report. -/
def Diagnostic.message (d : Diagnostic) : Text :=
  let wording := d.kind.wording
  d.stage.heading.toList ++ ": ".toList ++ wording.headline.toList ++ " (Ln ".toList
    ++ Text.ofInt d.line ++ ", Col ".toList ++ Text.ofNat d.column ++ ")\n\n".toList
    ++ d.context
    ++ "\n".toList ++ wording.detail.toList ++ "\nhelp: ".toList ++ wording.advice.toList
    ++ "\n".toList

end LogoLang
