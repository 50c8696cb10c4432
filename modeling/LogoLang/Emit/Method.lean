import LogoLang.Text.Basic

set_option autoImplicit false

/-! # Methods of the emitted turtle class

An emitted module brings a class of turtles along, with only the methods that the program uses. Each
method has a fixed text. -/

namespace LogoLang

/-- A method that an emitted program can use. -/
inductive Method where
  | color
  | direction
  | penDown
  | penMove
  | penUp
  | setHeading
  | setPenColor
  | setX
  | setY
  | turn
  | x
  | y
deriving DecidableEq, Repr

/-- The methods in the order of their names. -/
def Method.all : List Method := [
  .color, .direction, .penDown, .penMove, .penUp, .setHeading, .setPenColor, .setX, .setY, .turn,
  .x, .y]

/-- The name of a method. -/
def Method.name : Method → Text
  | .color => "color".toList
  | .direction => "direction".toList
  | .penDown => "pen_down".toList
  | .penMove => "pen_move".toList
  | .penUp => "pen_up".toList
  | .setHeading => "set_heading".toList
  | .setPenColor => "set_pen_color".toList
  | .setX => "set_x".toList
  | .setY => "set_y".toList
  | .turn => "turn".toList
  | .x => "x".toList
  | .y => "y".toList

/-- The line, inside a method, that records the position and the pen. -/
def recordLine : String :=
  "        self.history.append((self._x, self._y, self._pen_down))\n"

/-- The method that makes a turtle. -/
def constructorText : String :=
  "    def __init__(self, width, height):\n" ++
  "        self.width = width\n" ++
  "        self.height = height\n" ++
  "        self._x = width / 2\n" ++
  "        self._y = height / 2\n" ++
  "        self._direction = 0\n" ++
  "        self._pen_down = False\n" ++
  "        self._color = 7\n" ++
  "        self.segments = []\n" ++
  "        self.history = []\n"

/-- The text of a method. -/
def Method.body : Method → String
  | .color =>
    "    def color(self):\n" ++
    "        return self._color\n"
  | .direction =>
    "    def direction(self):\n" ++
    "        return self._direction\n"
  | .penDown =>
    "    def pen_down(self):\n" ++
    "        self._pen_down = True\n" ++ recordLine
  | .penMove =>
    "    def pen_move(self, offset, distance):\n" ++
    "        direction = self._direction + offset\n" ++
    "        if distance < 0:\n" ++
    "            direction += 180\n" ++
    "            distance = -distance\n" ++
    "        rad = math.radians(direction)\n" ++
    "        x = self._x + distance * math.sin(rad)\n" ++
    "        y = self._y - distance * math.cos(rad)\n" ++
    "        if self._pen_down:\n" ++
    "            self.segments.append((self._x, self._y, x, y, self._color))\n" ++
    "        self._x, self._y = x, y\n" ++ recordLine ++
    "        return x, y\n"
  | .penUp =>
    "    def pen_up(self):\n" ++
    "        self._pen_down = False\n" ++ recordLine
  | .setHeading =>
    "    def set_heading(self, degrees):\n" ++
    "        if degrees != int(degrees):\n" ++
    "            raise ValueError(\"Expected an integer angle, got %r\" % degrees)\n" ++
    "        self._direction = int(degrees)\n"
  | .setPenColor =>
    "    def set_pen_color(self, index):\n" ++
    "        if index != int(index) or not 0 <= index <= 15:\n" ++
    "            raise ValueError(\"Color index must be an integer from 0 to 15, got %r\" % index)\n" ++
    "        self._color = int(index)\n"
  | .setX =>
    "    def set_x(self, value):\n" ++
    "        self._x = value\n" ++ recordLine
  | .setY =>
    "    def set_y(self, value):\n" ++
    "        self._y = value\n" ++ recordLine
  | .turn =>
    "    def turn(self, degrees):\n" ++
    "        if degrees != int(degrees):\n" ++
    "            raise ValueError(\"Expected an integer angle, got %r\" % degrees)\n" ++
    "        self._direction += int(degrees)\n"
  | .x =>
    "    def x(self):\n" ++
    "        return self._x\n"
  | .y =>
    "    def y(self):\n" ++
    "        return self._y\n"

/-- The class of turtles with the given methods. -/
def turtleClass (methods : List Method) : Text :=
  "class Draw:\n".toList
    ++ Text.join ['\n'] (constructorText.toList :: methods.map fun m => m.body.toList)

end LogoLang
