import TurtleScript.Proofs.Drawing.Canvas
import TurtleScript.Proofs.Interpreter.Agreement
import TurtleScript.Rendering

/-!
A script gives its commands without looking at the turtle. What a turtle comes to in a run is
therefore what it comes to when it follows the recorded commands one after the other, and a
rendering is the drawing of the recorded commands.
-/

namespace TurtleScript

universe u

namespace Interpreter

variable {σ : Type u}

/-- The same interpreter for a turtle that writes its commands down. -/
def recorder (I : Interpreter σ) : Interpreter (Array Command) where
  tokens := I.tokens
  table := I.table
  limits := I.limits
  obey := Array.push

/-- What a turtle comes to that follows recorded commands. -/
def replay (I : Interpreter σ) (turtle : σ) (commands : Array Command) : σ :=
  commands.toList.foldl I.obey turtle

/-- A frame that is run on a turtle is the recorded frame, replayed to that turtle. The session in
which it is run may have a recording already. -/
theorem run_eq_replayed (I : Interpreter σ) (turtle : σ) (frame : Frame) (start : Nat)
    (s : Session (Array Command)) :
    I.run frame start (s.onTurtle (I.replay turtle)) =
      ((I.recorder.run frame start s).1,
        (I.recorder.run frame start s).2.onTurtle (I.replay turtle)) := by
  have hpush (step : Nat) (commands : Array Command) (command : Command) :
      I.replay turtle (commands.push command) = I.obey (I.replay turtle commands) command := by
    simp [replay]
  have hrun := I.recorder.clocked.run_onTurtle (fun _ => I.obey) (I.replay turtle) hpush frame
    start s
  have hreplayer : I.recorder.clocked.onTurtle (fun _ => I.obey) = I.clocked := rfl
  rw [hreplayer, clocked_run, clocked_run] at hrun
  exact hrun

end Interpreter

namespace Program

/-- The commands that a program gives. -/
def commands (p : Program) (table : CommandTable) (limits : Limits) : List Command :=
  (p.record table limits).1.toList

/-- A run on a turtle is the recorded session with the recording replayed to that turtle. -/
theorem runOn_eq_session {σ : Type u} (p : Program) (table : CommandTable) (limits : Limits)
    (obey : σ → Command → σ) (turtle : σ) :
    p.runOn table limits obey turtle =
      ((p.commands table limits).foldl obey turtle, (p.session table limits).report) := by
  let I : Interpreter σ := ⟨p.tokens, table, limits, obey⟩
  have hrun : I.run .top 0 (.new turtle) =
      ((I.recorder.run .top 0 (.new #[])).1,
        (I.recorder.run .top 0 (.new #[])).2.onTurtle (I.replay turtle)) :=
    I.run_eq_replayed turtle .top 0 (.new #[])
  exact congrArg (fun r => (r.2.turtle, r.2.report)) hrun

end Program

/-- The canvas and the report of a rendering are those of the recorded run. -/
theorem render_eq_session (text : String) (style : Style) (limits : Limits) :
    (render text style limits).canvas =
        Canvas.drawn style ((Program.parse text).commands .standard limits) ∧
      (render text style limits).report =
        ((Program.parse text).session .standard limits).report := by
  have hrun := (Program.parse text).runOn_eq_session .standard limits Canvas.obey (.new style)
  exact ⟨congrArg Prod.fst hrun, congrArg Prod.snd hrun⟩

theorem canvas_render (text : String) (style : Style) (limits : Limits) :
    (render text style limits).canvas =
      Canvas.drawn style ((Program.parse text).commands .standard limits) :=
  (render_eq_session text style limits).1

/-- No run depends on its turtle. Whatever the turtle is and does, it ends in the state to which the
commands of the recorded run bring it one after the other, and the report is that of the recorded
run. In particular a rendering is what the recorded commands of its script draw on a fresh
canvas. -/
theorem runOn_eq_foldl_record (p : Program) (table : CommandTable) (limits : Limits) :
    (∀ (σ : Type u) (obey : σ → Command → σ) (turtle : σ),
      p.runOn table limits obey turtle =
        ((p.record table limits).1.toList.foldl obey turtle, (p.record table limits).2)) ∧
      ∀ (text : String) (style : Style),
        let recorded := (Program.parse text).record .standard limits
        (render text style limits).canvas = recorded.1.toList.foldl Canvas.obey (.new style) ∧
          (render text style limits).report = recorded.2 := by
  refine ⟨?_, ?_⟩
  · intro σ obey turtle
    exact p.runOn_eq_session table limits obey turtle
  · intro text style recorded
    exact render_eq_session text style limits

end TurtleScript
