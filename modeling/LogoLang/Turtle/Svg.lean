import LogoLang.Turtle.Basic

set_option autoImplicit false

/-! # Drawings

The strokes of a turtle as a scalable vector drawing: a black background and a line for every
stroke. -/

namespace LogoLang

/-- The colors of the palette, from black to grey. -/
def palette : Vector String 16 := #v[
  "#000000", "#0000ff", "#00ffff", "#00ff00", "#ff0000", "#ff00ff", "#ffff00", "#ffffff",
  "#a52a2a", "#d2b48c", "#228b22", "#7fffd4", "#fa8072", "#800080", "#ffa500", "#808080"]

/-- An attribute of an element, after a space. -/
def svgAttribute (name : String) (value : Text) : Text :=
  ' ' :: name.toList ++ "=\"".toList ++ value ++ ['"']

/-- The opening tag of the drawing. -/
def svgOpening (width height : Text) : Text :=
  "<svg".toList ++ svgAttribute "xmlns" "http://www.w3.org/2000/svg".toList
    ++ svgAttribute "width" width ++ svgAttribute "height" height
    ++ svgAttribute "viewBox" ("0 0 ".toList ++ width ++ ' ' :: height) ++ ['>']

/-- The background. -/
def svgBackground : Text := "<rect width=\"100%\" height=\"100%\" fill=\"black\"/>".toList

/-- The line of a stroke. -/
def Segment.toSvg (s : Segment) : Text :=
  "<line".toList ++ svgAttribute "x1" (Text.ofDoubleFixed s.x₁)
    ++ svgAttribute "y1" (Text.ofDoubleFixed s.y₁) ++ svgAttribute "x2" (Text.ofDoubleFixed s.x₂)
    ++ svgAttribute "y2" (Text.ofDoubleFixed s.y₂) ++ svgAttribute "stroke" palette[s.color].toList
    ++ svgAttribute "stroke-width" ['1'] ++ "/>".toList

/-- The closing tag of the drawing. -/
def svgClosing : Text := "</svg>".toList

/-- The drawing, one element on each line. -/
def Turtle.toSvg (t : Turtle) : Text :=
  let lines := svgOpening t.width.toText t.height.toText :: svgBackground
    :: t.segments.map Segment.toSvg ++ [svgClosing]
  lines.flatMap (· ++ ['\n'])

end LogoLang
