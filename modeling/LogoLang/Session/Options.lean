import LogoLang.Bindings
import LogoLang.Number.Decimal
import LogoLang.Text.Quoted
import LogoLang.Turtle.Measure

set_option autoImplicit false

/-! # Options

The settings of a session. They are given by name, and a name may be given a value of any type; what a
session needs is checked when the options are made. -/

namespace LogoLang

/-! ## Settings -/

/-- The value of an option. -/
inductive Setting where
  | int (n : Int)
  | float (x : Float)
  | text (t : Text)
  | flag (b : Bool)
  | absent
  /-- An option was named, but its value was left out. -/
  | empty
deriving DecidableEq

/-- Whether a value counts as true: numbers other than zero and texts that are not empty do. -/
def Setting.isTrue : Setting → Bool
  | .int n => n ≠ 0
  | .float x => !(x == 0)
  | .text t => !t.isEmpty
  | .flag b => b
  | .absent | .empty => false

/-- A value as messages show it. -/
def Setting.shown : Setting → Text
  | .int n => Text.ofInt n
  | .float x => Text.ofDouble x
  | .text t => t.quoted
  | .flag b => Text.ofBool b
  | .absent => "None".toList
  | .empty => "[]".toList

/-- A value as text; a text stands for itself. -/
def Setting.toText : Setting → Text
  | .text t => t
  | s => s.shown

/-- The measure that a value is. Truth values and texts are none. -/
def Setting.measure? : Setting → Option Measure
  | .int n => some (.whole n)
  | .float x => some (.real x)
  | _ => none

/-- Whether a measure is not at or below zero. -/
def Measure.isPositive : Measure → Bool
  | .whole n => 0 < n
  | .real x => !(x ≤ 0)

/-! ## Options -/

/-- The names of the options. -/
inductive OptionName where
  | debug
  | width
  | height
  | callFrames
  | sourcePath
deriving DecidableEq, Repr

/-- The options in the order of their declaration. -/
def OptionName.all : List OptionName := [.debug, .width, .height, .callFrames, .sourcePath]

/-- The written form of an option's name. -/
def OptionName.toText : OptionName → Text
  | .debug => "debug".toList
  | .width => "width".toList
  | .height => "height".toList
  | .callFrames => "call_frames".toList
  | .sourcePath => "source_path".toList

/-- The option of a written name. -/
def OptionName.ofText? (t : Text) : Option OptionName := OptionName.all.find? (·.toText = t)

/-- A value for each option. -/
structure Options where
  debug : Setting
  width : Setting
  height : Setting
  callFrames : Setting
  sourcePath : Setting
deriving DecidableEq

/-- The options when none is given. -/
def Options.default : Options := ⟨.flag false, .int 400, .int 400, .flag false, .absent⟩

/-- The value of an option. -/
def Options.value (o : Options) : OptionName → Setting
  | .debug => o.debug
  | .width => o.width
  | .height => o.height
  | .callFrames => o.callFrames
  | .sourcePath => o.sourcePath

/-- Gives an option a value, whatever it is. -/
def Options.assign (o : Options) (s : Setting) : OptionName → Options
  | .debug => { o with debug := s }
  | .width => { o with width := s }
  | .height => { o with height := s }
  | .callFrames => { o with callFrames := s }
  | .sourcePath => { o with sourcePath := s }

/-- The options with their written names, in the order of their declaration. -/
def Options.entries (o : Options) : List (Text × Setting) :=
  OptionName.all.map fun name => (name.toText, o.value name)

/-! ## Errors -/

/-- What can be wrong with options or with a request for one. -/
inductive OptionsError where
  | notPositive (name : OptionName) (value : Setting)
  | unknown (names : List Text)
  | noSuchOption (name : Text)
  | noSuchAttribute (name : Text)
deriving DecidableEq

/-- Names as messages list them. -/
def namesShown (names : List Text) : Text :=
  "dict_keys([".toList ++ Text.join ", ".toList (names.map Text.quoted) ++ "])".toList

/-- The message of an error. -/
def OptionsError.message : OptionsError → Text
  | .notPositive name value =>
    name.toText ++ " must be a positive number, got ".toList ++ value.shown
  | .unknown names => "Unknown options: ".toList ++ namesShown names
  | .noSuchOption name =>
    name.quoted ++ " isn't a valid option. Expected one of: ".toList
      ++ namesShown (OptionName.all.map OptionName.toText)
  | .noSuchAttribute name => name.quoted

/-! ## Making and changing options -/

/-- The value that an option starts with: the one given, or else its default. Options that are either
on or off take any value as one or the other. -/
def startValue (given : Bindings Setting) (name : OptionName) : Setting :=
  match given.get? name.toText, Options.default.value name with
  | none, standard => standard
  | some s, .flag _ => .flag s.isTrue
  | some s, _ => s

/-- Refuses an option that is not a positive measure. -/
def requirePositive (o : Options) (name : OptionName) : Except OptionsError Unit :=
  match (o.value name).measure? with
  | some m => if m.isPositive then .ok () else .error (.notPositive name (o.value name))
  | none => .error (.notPositive name (o.value name))

/-- Options from named values. The width and the height have to be positive measures, and there must
be no unknown names. -/
def Options.ofGiven (given : Bindings Setting) : Except OptionsError Options := do
  let o : Options := {
    debug := startValue given .debug
    width := startValue given .width
    height := startValue given .height
    callFrames := startValue given .callFrames
    sourcePath := startValue given .sourcePath }
  requirePositive o .width
  requirePositive o .height
  let unknown := (Bindings.names given).filter fun name => (OptionName.ofText? name).isNone
  if unknown.isEmpty then return o else throw (.unknown unknown)

/-- The value of the option with a written name. -/
def Options.get (o : Options) (name : Text) : Except OptionsError Setting :=
  match OptionName.ofText? name with
  | some name => .ok (o.value name)
  | none => .error (.noSuchAttribute name)

/-- Gives the option with a written name a value, which is not checked. -/
def Options.set (o : Options) (name : Text) (s : Setting) : Except OptionsError Options :=
  match OptionName.ofText? name with
  | some name => .ok (o.assign s name)
  | none => .error (.noSuchOption name)

/-- The size of the canvas; a value that is no measure counts as the default. -/
def Options.canvas (o : Options) : Measure × Measure :=
  (o.width.measure?.getD .default, o.height.measure?.getD .default)

end LogoLang
