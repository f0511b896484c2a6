import TurtleScript.Files.Effect
import TurtleScript.Files.Script
import TurtleScript.Rendering

/-!
The files that come of a script: a copy of its text and the drawings it asked to save.
-/

namespace TurtleScript

namespace Artifact

/-- The file name of saved drawings, without their number and extension. -/
def standardName : String := "turtled_image"

/-- Where the drawing of the `n`th save of a run goes, counted from 0. -/
def drawingPath (directory name : String) (n : Nat) : String :=
  Path.join directory
    (if n = 0 then name ++ ".svg" else name ++ "_" ++ Nat.repr n ++ ".svg")

def writeLogged (path contents : String) (speaker : Log.Speaker) (verb : String) :
    List Effect :=
  [.write path contents, .log ⟨.info, speaker, verb ++ " " ++ path⟩]

/-- Saves a script verbatim. -/
def saveScript (directory text : String) : List Effect :=
  writeLogged (Script.savePath directory) text .scripts "saved script to"

/-- The drawings that a script asked to save, with their paths, from the `n`th on. -/
def drawings (directory name : String) (n : Nat) :
    List Picture → List (String × Picture)
  | [] => []
  | p :: ps => (drawingPath directory name n, p) :: drawings directory name (n + 1) ps

/-- Where the drawings saved on a canvas go. -/
def drawingsOf (canvas : Canvas) (directory name : String) : List (String × Picture) :=
  drawings directory name 0 canvas.saved.toList

/-- Writes every drawing that a script asked to save. -/
def saveDrawings (canvas : Canvas) (directory name : String) : List Effect :=
  (drawingsOf canvas directory name).flatMap fun (path, picture) =>
    writeLogged path picture.text .drawing "saved"

end Artifact

end TurtleScript
