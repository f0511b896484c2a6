import TurtleScript.Number.Text

/-!
Lines of a drawing. The y axis points down, as on a screen.
-/

namespace TurtleScript

structure Point where
  x : Float
  y : Float

namespace Point

def origin : Point := ⟨0, 0⟩

/-- The angle of one degree. -/
def degree : Float := 3.141592653589793 / 180

/-- The point at a distance in the direction of a heading in degrees. -/
def ahead (p : Point) (heading distance : Float) : Point :=
  let angle := heading * degree
  ⟨p.x + angle.cos * distance, p.y + angle.sin * distance⟩

def text (p : Point) : String :=
  Number.text p.x ++ "," ++ Number.text p.y

end Point

/-- A line drawn without lifting the pen: where it starts, and the points it goes to. -/
structure Polyline where
  start : Point
  points : Array Point

namespace Polyline

def lineTo (line : Polyline) (p : Point) : Polyline :=
  { line with points := line.points.push p }

/-- How many path elements a line has, with the initial move. -/
def size (line : Polyline) : Nat :=
  line.points.size + 1

/-- A line as path data. -/
def text (line : Polyline) : String :=
  " ".intercalate (("M" ++ line.start.text) :: line.points.toList.map fun p => "L" ++ p.text)

end Polyline

end TurtleScript
