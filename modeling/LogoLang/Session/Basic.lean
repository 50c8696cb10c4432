import LogoLang.Session.Failure
import LogoLang.Session.Log
import LogoLang.Session.Source
import LogoLang.Turtle.Svg

set_option autoImplicit false

/-! # Sessions

A session holds a parsed program with the options under which it is run and emitted. -/

namespace LogoLang

/-- A parsed program with its options and the name of its source. -/
structure Session where
  options : Options
  sourceName : Setting
  lines : List Text
  table : FunctionTable

/-! ## Opening -/

/-- The name of a source: the one of the options, or else its own, or else a stand-in. -/
def Source.nameUnder (source : Source) (options : Options) : Setting :=
  match options.sourcePath with
  | .absent => .text (source.name?.getD "<string>".toList)
  | s => s

/-- Parses a program. The messages are those up to a failure, if there is one. -/
def Session.start (options : Options) (source : Source) :
    List LogRecord × Except Failure Session :=
  let lines := source.toLines
  let records := parseRecords lines
  let name := source.nameUnder options
  match parseProgram lines with
  | .error failure => (records, .error failure.toFailure)
  | .ok table => (records ++ [parsedRecord name.toText table], .ok ⟨options, name, lines, table⟩)

/-- Parses the program in a file of the given content. -/
def Session.startFile (options : Options) (path : Text) (content : ByteArray) :
    List LogRecord × Except Failure Session :=
  match Source.ofFile? path content with
  | none => ([], .error .undecodable)
  | some source => Session.start options source

/-- The session of a program under named options. The options are looked at first. -/
def Session.ofSource (given : Bindings Setting) (source : Source) : Except Failure Session := do
  let options ← (Options.ofGiven given).mapError .options
  (Session.start options source).2

/-- The least severity of the messages that are shown, when `level` is the one that is set. -/
def Options.level (o : Options) (level : Severity) : Severity :=
  if o.debug.isTrue then .debug else level

/-- A session as it is shown. -/
def Session.toText (s : Session) : Text :=
  "Logo(open(".toList ++ s.sourceName.shown ++ "), call_frames=".toList ++ s.options.callFrames.shown
    ++ [')']

/-! ## Running -/

/-- The program of a session. -/
def Session.program (s : Session) : Program := ⟨s.table, s.options.callFrames.isTrue⟩

/-- Where a run came to, and why it did not come further. -/
structure Run where
  config : Config
  failure : Option Failure

/-- Runs the program with a new turtle, which needs a canvas with a middle in range. -/
def Session.run (s : Session) : Except Failure Run :=
  let (width, height) := s.options.canvas
  match Turtle.new? width height with
  | none => .error .tooLarge
  | some t =>
    let (ending, config) := (Config.start s.program t).run s.program stepLimit
    .ok ⟨config, ending.failure? s.lines⟩

/-- The messages of a run. -/
def Run.records (r : Run) : List LogRecord := r.config.events.filterMap Event.record?

/-- The turtle at the end of a run that came to its end. -/
def Run.turtle (r : Run) : Except Failure Turtle :=
  match r.failure with
  | some failure => .error failure
  | none => .ok r.config.turtle

/-! ## Emitting -/

/-- What emitting a program gives: the module or a failure, and what was noted on the way. -/
structure Emission where
  notes : List EmitNote
  result : Except Failure Text

/-- The failure that a failed emission of the given lines is. -/
def EmitFailure.toFailure (lines : List Text) (f : EmitFailure) : Failure :=
  match f.fault with
  | .flaw flaw => .diagnostic (flawDiagnostic .emitting lines flaw f.line)
  | .malformed => .malformed

/-- Emits the program as a module. -/
def Session.emit (s : Session) : Emission :=
  let emitted := s.table.emit
  let (width, height) := s.options.canvas
  ⟨emitted.trace,
    match emitted.result with
    | .ok functions => .ok (moduleText functions (usedMethods emitted.trace) width height)
    | .error failure => .error (failure.toFailure s.lines)⟩

/-- The methods that an emission used, in the order of their names. -/
def Emission.methods (e : Emission) : List Method := usedMethods e.notes

/-- The messages of an emission. -/
def Emission.records (e : Emission) : List LogRecord := e.notes.filterMap EmitNote.record?

end LogoLang
