import TurtleScript.Number.Text

/-!
What a script can tell a turtle to do. Angles are in degrees, and turning right is clockwise on
the screen.
-/

namespace TurtleScript

inductive Command where
  | forward (distance : Float)
  | back (distance : Float)
  | right (angle : Float)
  | left (angle : Float)
  | setHeading (angle : Float)
  | penUp
  | penDown
  /-- Go to the origin and face heading 0 with the pen down. -/
  | home
  /-- Fill the whole drawing with a colour, which is whatever word the script gave. -/
  | background (colour : String)
  /-- Keep a copy of the drawing as it is right now. -/
  | save

namespace Command

/-- A command as a line of a script. -/
def text : Command → String
  | forward distance => "forward " ++ Number.text distance
  | back distance => "back " ++ Number.text distance
  | right angle => "right " ++ Number.text angle
  | left angle => "left " ++ Number.text angle
  | setHeading angle => "setheading " ++ Number.text angle
  | penUp => "penup"
  | penDown => "pendown"
  | home => "home"
  | background colour => "bckgr " ++ colour
  | save => "save"

end Command

end TurtleScript
