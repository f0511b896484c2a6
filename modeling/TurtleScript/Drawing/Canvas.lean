import TurtleScript.Command
import TurtleScript.Drawing.Picture

/-!
A turtle that draws. It starts at the origin, which is the middle of the picture, facing heading 0
to the right with its pen down. A line is in progress from the first move with the pen down until
the pen is lifted or the turtle goes home.
-/

namespace TurtleScript

structure Canvas where
  style : Style
  position : Point
  /-- In degrees. -/
  heading : Float
  /-- Whether the pen is down, so that moving draws. -/
  isDrawing : Bool
  background : String
  /-- The lines that are done, oldest first. -/
  finished : Array Polyline
  /-- The line in progress, if the pen is down and the turtle has moved. -/
  current : Option Polyline
  /-- The pictures that were asked to be kept, oldest first. -/
  saved : Array Picture

namespace Canvas

def new (style : Style) : Canvas where
  style := style
  position := .origin
  heading := 0
  isDrawing := true
  background := style.background
  finished := #[]
  current := none
  saved := #[]

/-- All lines drawn so far, with the one in progress at the end. -/
def lines (c : Canvas) : List Polyline :=
  c.finished.toList ++ c.current.toList

/-- The drawing as it is now. -/
def picture (c : Canvas) : Picture where
  style := c.style
  background := c.background
  lines := c.lines

/-- Ends the line in progress. A line that goes nowhere is not worth keeping. -/
def endLine (c : Canvas) : Canvas :=
  match c.current with
  | some line =>
      if line.size > 1 then { c with finished := c.finished.push line, current := none }
      else { c with current := none }
  | none => c

def travel (c : Canvas) (distance : Float) : Canvas :=
  let destination := c.position.ahead c.heading distance
  let current :=
    if c.isDrawing then some ((c.current.getD ⟨c.position, #[]⟩).lineTo destination)
    else c.current
  { c with position := destination, current := current }

def turnTo (c : Canvas) (heading : Float) : Canvas :=
  { c with heading := heading }

def goHome (c : Canvas) : Canvas :=
  { c.endLine with position := .origin, heading := 0, isDrawing := true }

/-- Painting the background covers everything drawn so far. The turtle stays where it is. -/
def paint (c : Canvas) (colour : String) : Canvas :=
  { c with finished := #[], current := none, background := colour }

def keep (c : Canvas) : Canvas :=
  { c with saved := c.saved.push c.picture }

def obey (c : Canvas) : Command → Canvas
  | .forward distance => c.travel distance
  | .back distance => c.travel (-distance)
  | .right angle => c.turnTo (c.heading + angle)
  | .left angle => c.turnTo (c.heading - angle)
  | .setHeading angle => c.turnTo angle
  | .penUp => { c.endLine with isDrawing := false }
  | .penDown => { c with isDrawing := true }
  | .home => c.goHome
  | .background colour => c.paint colour
  | .save => c.keep

end Canvas

end TurtleScript
