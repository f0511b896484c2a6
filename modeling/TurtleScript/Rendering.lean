import TurtleScript.Drawing.Canvas
import TurtleScript.Log
import TurtleScript.Program

/-!
Drawing a script on a fresh canvas. Nothing carries over from one rendering to the next.
-/

namespace TurtleScript

structure Rendering where
  canvas : Canvas
  report : Report
  log : List Log.Record

/-- What is logged of a run over a number of tokens. -/
def Report.log (report : Report) (tokens : Nat) : List Log.Record :=
  let debug (message : String) : Log.Record := ⟨.debug, .drawing, message⟩
  [debug ("script has " ++ Nat.repr tokens ++ " tokens")] ++
    report.skipped.map (fun skip => debug ("skipped: " ++ skip.message)) ++
    (if report.procedures.isEmpty then []
     else [debug ("procedures: " ++ ", ".intercalate report.procedures)]) ++
    (if report.truncated then
      [⟨.warning, .drawing, "script stopped early: step limit reached"⟩]
     else [])

/-- Runs a script on a fresh canvas with the standard commands. -/
def render (source : String) (style : Style) (limits : Limits) : Rendering :=
  let program := Program.parse source
  let (canvas, report) := program.runOn .standard limits Canvas.obey (.new style)
  ⟨canvas, report, report.log program.tokens.size⟩

end TurtleScript
