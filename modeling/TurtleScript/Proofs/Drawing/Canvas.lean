import TurtleScript.Drawing.Canvas

/-!
What can be relied on of a canvas. Its turtle has a pose, which commands change without regard to
what has been drawn. A line is in progress only while the pen is down, and it ends where the turtle
stands, so it goes somewhere: ending it takes it into the drawing and never drops it.
-/

namespace TurtleScript

/-- Where a turtle stands, where it faces, and whether its pen is down. -/
structure Pose where
  position : Point
  heading : Float
  isDrawing : Bool

namespace Pose

/-- At the origin, facing heading 0 with the pen down. -/
def home : Pose := ⟨.origin, 0, true⟩

def travel (p : Pose) (distance : Float) : Pose :=
  { p with position := p.position.ahead p.heading distance }

/-- The pose after a command. -/
def follow (p : Pose) : Command → Pose
  | .forward distance => p.travel distance
  | .back distance => p.travel (-distance)
  | .right angle => { p with heading := p.heading + angle }
  | .left angle => { p with heading := p.heading - angle }
  | .setHeading angle => { p with heading := angle }
  | .penUp => { p with isDrawing := false }
  | .penDown => { p with isDrawing := true }
  | .home => home
  | .background _ => p
  | .save => p

/-- The pose after a list of commands. -/
def after (p : Pose) (commands : List Command) : Pose :=
  commands.foldl follow p

end Pose

namespace Canvas

/-- A fresh canvas after a list of commands. -/
def drawn (style : Style) (commands : List Command) : Canvas :=
  commands.foldl obey (.new style)

theorem drawn_append (style : Style) (commands later : List Command) :
    drawn style (commands ++ later) = later.foldl obey (drawn style commands) :=
  List.foldl_append

def pose (c : Canvas) : Pose :=
  ⟨c.position, c.heading, c.isDrawing⟩

@[simp]
theorem pose_endLine (c : Canvas) : c.endLine.pose = c.pose := by
  unfold endLine
  split
  · split <;> rfl
  · rfl

theorem pose_obey (c : Canvas) (command : Command) :
    (c.obey command).pose = c.pose.follow command := by
  cases command with
  | penUp => exact congrArg (fun p => Pose.follow p .penUp) c.pose_endLine
  | _ => rfl

theorem pose_foldl (c : Canvas) (commands : List Command) :
    (commands.foldl obey c).pose = c.pose.after commands := by
  induction commands generalizing c with
  | nil => rfl
  | cons command commands ih =>
      rw [List.foldl_cons, ih, pose_obey]
      rfl

/-- What a canvas is like between commands: a line in progress has the pen down on it, and ends
where the turtle stands. -/
structure InOrder (c : Canvas) : Prop where
  drawing : ∀ line, c.current = some line → c.isDrawing = true
  arrived : ∀ line, c.current = some line → line.points.back? = some c.position

/-- No line ends before it has gone anywhere. -/
theorem InOrder.endLine_eq {c : Canvas} (h : c.InOrder) :
    c.endLine = { c with finished := c.lines.toArray, current := none } := by
  unfold endLine lines
  cases hcurrent : c.current with
  | none =>
      obtain ⟨style, position, heading, isDrawing, background, finished, current, saved⟩ := c
      cases hcurrent
      simp
  | some line =>
      have hpoints : line.points ≠ #[] := by
        intro hempty
        have harrived := h.arrived line hcurrent
        rw [hempty] at harrived
        cases harrived
      have hsize : line.size > 1 := by
        have hpos : 0 < line.points.size := Array.size_pos_iff.mpr hpoints
        unfold Polyline.size
        omega
      have hpush : (c.finished.toList ++ [line]).toArray = c.finished.push line := by
        apply Array.toList_inj.mp
        simp
      simp [hsize, hpush]

theorem InOrder.lines_endLine {c : Canvas} (h : c.InOrder) : c.endLine.lines = c.lines := by
  rw [h.endLine_eq]
  simp [lines]

theorem inOrder_of_current_eq_none {c : Canvas} (h : c.current = none) : c.InOrder := by
  constructor
  · intro line hline
    rw [h] at hline
    cases hline
  · intro line hline
    rw [h] at hline
    cases hline

theorem InOrder.travel {c : Canvas} (h : c.InOrder) (distance : Float) :
    (c.travel distance).InOrder := by
  cases hdrawing : c.isDrawing with
  | true =>
      refine ⟨fun _ _ => hdrawing, ?_⟩
      intro line hline
      simp only [Canvas.travel, hdrawing, if_true, Option.some.injEq] at hline
      rw [← hline]
      simp [Canvas.travel, Polyline.lineTo]
  | false =>
      apply inOrder_of_current_eq_none
      simp only [Canvas.travel, hdrawing, Bool.false_eq_true, if_false]
      cases hcurrent : c.current with
      | none => rfl
      | some line =>
          have htrue := h.drawing line hcurrent
          rw [hdrawing] at htrue
          cases htrue

/-- Every command leaves a canvas in order. -/
theorem InOrder.obey {c : Canvas} (h : c.InOrder) (command : Command) :
    (c.obey command).InOrder := by
  cases command with
  | forward distance => exact h.travel distance
  | back distance => exact h.travel (-distance)
  | right angle => exact ⟨h.drawing, h.arrived⟩
  | left angle => exact ⟨h.drawing, h.arrived⟩
  | setHeading angle => exact ⟨h.drawing, h.arrived⟩
  | penDown => exact ⟨fun _ _ => rfl, h.arrived⟩
  | save => exact ⟨h.drawing, h.arrived⟩
  | background colour => exact inOrder_of_current_eq_none rfl
  | penUp =>
      apply inOrder_of_current_eq_none
      simp [Canvas.obey, h.endLine_eq]
  | home =>
      apply inOrder_of_current_eq_none
      simp [Canvas.obey, goHome, h.endLine_eq]

theorem InOrder.foldl {c : Canvas} (h : c.InOrder) (commands : List Command) :
    (commands.foldl Canvas.obey c).InOrder := by
  induction commands generalizing c with
  | nil => exact h
  | cons command commands ih => exact ih (h.obey command)

theorem inOrder_drawn (style : Style) (commands : List Command) :
    (drawn style commands).InOrder :=
  (inOrder_of_current_eq_none rfl).foldl commands

end Canvas

end TurtleScript
