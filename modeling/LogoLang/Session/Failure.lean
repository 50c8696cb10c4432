import LogoLang.Program.Assembly
import LogoLang.Run.Machine
import LogoLang.Session.Options

set_option autoImplicit false

/-! # Failures

The ways in which the work on a program can end without its result. A diagnostic is meant for the
author of the program; the other failures are about the options, the files, or the limits of the
machine. -/

namespace LogoLang

/-- Why a path cannot be read or written. -/
inductive PathFault where
  | notFound
  | isDirectory
  | notDirectory
  /-- A part of the path or the whole path has more bytes than a name may have. -/
  | tooLong
  /-- The path holds a null character. -/
  | nullCharacter
  /-- A path was asked for, but none was given. -/
  | missing
deriving DecidableEq, Repr

/-- What is said about a path with a null character. -/
def nullCharacterMessage : Text := "embedded null byte".toList

/-- Why there is no result. -/
inductive Failure where
  | diagnostic (d : Diagnostic)
  | options (e : OptionsError)
  | path (fault : PathFault)
  /-- A file does not hold text in the expected encoding. -/
  | undecodable
  /-- A line is announced as a heading or a statement, but is none for the grammar. -/
  | unreadable
  /-- A body is closed while none is open. -/
  | noScope
  /-- A function is inserted under a name that is taken. -/
  | duplicate (name : Text)
  /-- A whole number is too large for a double. -/
  | tooLarge
  /-- A color outside the palette is picked. -/
  | colorOutOfRange (index : Int)
  /-- A tree holds a text that was never understood. -/
  | malformed
  /-- Calls are nested too deeply. -/
  | nestedTooDeeply
  /-- The program was given up before its end. -/
  | unfinished
deriving DecidableEq

/-- The failure that a failed assembly is. -/
def AssemblyFailure.toFailure : AssemblyFailure → Failure
  | .diagnostic d => .diagnostic d
  | .unreadable _ => .unreadable
  | .noScope => .noScope
  | .duplicate name => .duplicate name

/-- The failure that a turtle's refusal is. -/
def TurtleFault.toFailure : TurtleFault → Failure
  | .headingTooLarge => .tooLarge
  | .colorOutOfRange index => .colorOutOfRange index

/-- The diagnostic of a flaw in one of the given lines. -/
def flawDiagnostic (stage : Stage) (lines : List Text) (flaw : Flaw) (line : Nat) : Diagnostic :=
  Diagnostic.at stage flaw.kind (lines.getD line []) (line + 1) flaw.span.start flaw.span.length

/-- The failure that the end of a run is, unless it is the proper one. -/
def Ending.failure? (lines : List Text) : Ending → Option Failure
  | .finished => none
  | .refused (.flaw flaw) line => some (.diagnostic (flawDiagnostic .running lines flaw line))
  | .refused (.turtle fault) _ => some fault.toFailure
  | .refused .malformed _ => some .malformed
  | .nestedTooDeeply => some .nestedTooDeeply
  | .unfinished => some .unfinished

end LogoLang
