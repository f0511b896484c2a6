import TurtleScript.Number.Integer

/-!
Colour words of a script, as the document format wants them.
-/

namespace TurtleScript

namespace Colour

/-- The greatest grey level. -/
def white : Nat := 255

def grey (level : Nat) : String :=
  let n := Nat.repr level
  "rgb(" ++ n ++ "," ++ n ++ "," ++ n ++ ")"

/-- Numbers from 0 to 255 are levels of grey; any other word is a colour name as it stands. -/
def ofWord (word : String) : String :=
  match Integer.natural? white word with
  | some level => grey level
  | none => word

end Colour

end TurtleScript
