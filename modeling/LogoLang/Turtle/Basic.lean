import LogoLang.Turtle.Measure
import LogoLang.Syntax.Tree

set_option autoImplicit false

/-! # The turtle

A turtle has a position, a heading in whole degrees, a pen that is up or down, and a color. It keeps
the strokes that it drew with the pen down, and a history of its positions and pen states. Heading
zero points up and angles grow clockwise; the y axis points down. -/

namespace LogoLang

/-! ## State -/

/-- The number of a color in the palette. -/
abbrev Color := Fin 16

/-- The color of a new turtle. -/
def defaultColor : Color := 7

/-- A stroke. -/
structure Segment where
  x₁ : Float
  y₁ : Float
  x₂ : Float
  y₂ : Float
  color : Color
deriving DecidableEq

/-- A position and the state of the pen there. -/
structure Stop where
  x : Float
  y : Float
  penDown : Bool
deriving DecidableEq

/-- A turtle on its canvas. Its strokes and its trail have their latest element first. -/
structure Turtle where
  width : Measure
  height : Measure
  x : Float
  y : Float
  direction : Int
  penDown : Bool
  color : Color
  strokes : List Segment
  trail : List Stop
deriving DecidableEq

/-- The strokes in the order in which they were drawn. -/
def Turtle.segments (t : Turtle) : List Segment := t.strokes.reverse

/-- The positions and pen states in the order in which they were taken up. -/
def Turtle.history (t : Turtle) : List Stop := t.trail.reverse

/-- A new turtle in the middle of a canvas, with the pen up; `none` when the middle is out of the
range of the coordinates. -/
def Turtle.new? (width height : Measure) : Option Turtle := do
  let x ← width.half?
  let y ← height.half?
  return ⟨width, height, x, y, 0, false, defaultColor, [], []⟩

/-! ## Geometry -/

/-- One degree in radians. -/
def radian : Float := Float.ofBits 0x3f91df46a2529d39

/-- The point at a distance from `(x, y)` in a direction, or `none` when the direction is too large an
integer for a double. -/
def endPoint? (x y : Float) (direction : Int) (distance : Float) : Option (Float × Float) :=
  (doubleOfInt? direction).map fun degrees =>
    let angle := degrees * radian
    (x + distance * angle.sin, y - distance * angle.cos)

/-! ## Actions -/

/-- What a turtle can be told to do. -/
inductive Action where
  | penUp
  | penDown
  | move (offset : Int) (distance : Float)
  | setPenColor (index : Int)
  | turn (degrees : Int)
  | setHeading (degrees : Int)
  | setX (value : Float)
  | setY (value : Float)
deriving DecidableEq

/-- Why a turtle refuses an action or a question. -/
inductive TurtleFault where
  /-- The heading is too large an integer for a double. -/
  | headingTooLarge
  /-- The palette has no such color. -/
  | colorOutOfRange (index : Int)
deriving DecidableEq

/-- What a turtle answers to an action or a question. -/
inductive Answer where
  | nothing
  | point (x y : Float)
  | coordinate (value : Float)
  | integer (n : Int)
deriving DecidableEq

/-- Adds the present position and pen state to the trail. -/
def Turtle.record (t : Turtle) : Turtle :=
  { t with trail := ⟨t.x, t.y, t.penDown⟩ :: t.trail }

/-- Moves in the direction that is `offset` degrees from the heading, which stays as it is. A negative
distance is one in the opposite direction. -/
def Turtle.move (t : Turtle) (offset : Int) (distance : Float) :
    Except TurtleFault (Answer × Turtle) :=
  let direction := t.direction + offset
  let (direction, distance) :=
    if distance < 0 then (direction + 180, -distance) else (direction, distance)
  match endPoint? t.x t.y direction distance with
  | none => .error .headingTooLarge
  | some (x, y) =>
    let strokes := if t.penDown then ⟨t.x, t.y, x, y, t.color⟩ :: t.strokes else t.strokes
    .ok (.point x y, { t with x, y, strokes }.record)

/-- Does an action. -/
def Turtle.perform (t : Turtle) : Action → Except TurtleFault (Answer × Turtle)
  | .penUp => .ok (.nothing, { t with penDown := false }.record)
  | .penDown => .ok (.nothing, { t with penDown := true }.record)
  | .move offset distance => t.move offset distance
  | .setPenColor index =>
    if h : 0 ≤ index ∧ index < 16 then
      .ok (.nothing, { t with color := ⟨index.toNat, by omega⟩ })
    else .error (.colorOutOfRange index)
  | .turn degrees => .ok (.nothing, { t with direction := t.direction + degrees })
  | .setHeading degrees => .ok (.nothing, { t with direction := degrees })
  | .setX value => .ok (.nothing, { t with x := value }.record)
  | .setY value => .ok (.nothing, { t with y := value }.record)

/-- Answers a question. -/
def Turtle.answer (t : Turtle) : Query → Answer
  | .x => .coordinate t.x
  | .y => .coordinate t.y
  | .heading => .integer t.direction
  | .color => .integer t.color.val

/-- What is said about a color that the palette does not have. -/
def colorMessage (index : Int) : Text :=
  "Color index out of range: ".toList ++ Text.ofInt index

/-- The state of a turtle as it is shown. -/
def Turtle.toText (t : Turtle) : Text :=
  "Turtle(x=".toList ++ Text.ofDouble t.x ++ ", y=".toList ++ Text.ofDouble t.y
    ++ ", direction=".toList ++ Text.ofInt t.direction
    ++ ", pen_down=".toList ++ Text.ofBool t.penDown
    ++ ", color=".toList ++ Text.ofNat t.color.val ++ ")".toList

end LogoLang
