/-!
The look of a drawing, as the one who asks for it sets it.
-/

namespace TurtleScript

structure Style where
  width : Float
  height : Float
  /-- The colour word of the background before a script paints it. -/
  background : String
  /-- The colour of the lines. -/
  stroke : String
  strokeWidth : Float

namespace Style

def standard : Style where
  width := 400
  height := 400
  background := "0"
  stroke := "white"
  strokeWidth := 2

end Style

end TurtleScript
