import TurtleScript.Proofs.Drawing.Trajectory

/-!
Going home is a clean seam between two drawings. Whatever was done before, the turtle goes on from
home as it would on a fresh canvas, and the two canvases are followed side by side here: they have
the same pose and the same line in progress, so every command does the same to both of them. They
differ in what lies under the later drawing, which is all that was drawn before the seam until the
background is painted, and nothing from then on.
-/

namespace TurtleScript

namespace Seam

open Canvas
open Trajectory (obey_of_goes_on obey_of_endsLine)

/-- A canvas `c` that goes on after an earlier drawing, beside a canvas `d` on which the same is
done from scratch. `painted` tells whether the background has been painted in the meantime. -/
structure GoesOn (earlier : Canvas) (painted : Bool) (c d : Canvas) : Prop where
  pose : c.pose = d.pose
  current : c.current = d.current
  finished : c.finished.toList = (if painted then [] else earlier.lines) ++ d.finished.toList
  background : c.background = if painted then d.background else earlier.background

variable {earlier c d : Canvas} {painted : Bool} {command : Command}

theorem GoesOn.lines (h : GoesOn earlier painted c d) :
    c.lines = (if painted then [] else earlier.lines) ++ d.lines := by
  rw [Canvas.lines, h.finished, h.current, List.append_assoc]
  rfl

/-- Only painting changes the background. -/
theorem background_obey (c : Canvas) (h : command.isBackground = false) :
    (c.obey command).background = c.background := by
  have hendLine : c.endLine.background = c.background := by
    unfold endLine
    split
    · split <;> rfl
    · rfl
  cases command with
  | background colour => cases h
  | penUp => exact hendLine
  | home => exact hendLine
  | _ => rfl

/-- A command does the same to both canvases. -/
theorem GoesOn.obey (h : GoesOn earlier painted c d) (hc : c.InOrder) (hd : d.InOrder)
    (command : Command) :
    GoesOn earlier (painted || command.isBackground) (c.obey command) (d.obey command) := by
  have hpose : (c.obey command).pose = (d.obey command).pose := by
    rw [pose_obey, pose_obey, h.pose]
  cases hplain : command.isBackground with
  | true =>
      rw [Bool.or_true]
      cases command with
      | background colour => exact ⟨hpose, rfl, rfl, rfl⟩
      | _ => cases hplain
  | false =>
      rw [Bool.or_false]
      have hbackground : (c.obey command).background =
          if painted then (d.obey command).background else earlier.background := by
        rw [background_obey c hplain, background_obey d hplain]
        exact h.background
      cases hline : command.endsLine with
      | true =>
          -- Both lines in progress end here, and none of them is dropped.
          obtain ⟨hfinished, hcurrent⟩ := obey_of_endsLine hc hline
          obtain ⟨hfinished', hcurrent'⟩ := obey_of_endsLine hd hline
          refine ⟨hpose, ?_, ?_, hbackground⟩
          · rw [hcurrent, hcurrent']
          · rw [hfinished, hfinished']
            exact h.lines
      | false =>
          obtain ⟨hfinished, hcurrent⟩ := obey_of_goes_on (c := c) hline hplain
          obtain ⟨hfinished', hcurrent'⟩ := obey_of_goes_on (c := d) hline hplain
          refine ⟨hpose, ?_, ?_, hbackground⟩
          · rw [hcurrent, hcurrent', h.current, h.pose]
          · rw [hfinished, hfinished']
            exact h.finished

theorem GoesOn.foldl (h : GoesOn earlier painted c d) (hc : c.InOrder) (hd : d.InOrder)
    (commands : List Command) :
    GoesOn earlier (painted || commands.any Command.isBackground) (commands.foldl Canvas.obey c)
      (commands.foldl Canvas.obey d) := by
  induction commands generalizing painted c d with
  | nil =>
      rw [List.any_nil, Bool.or_false]
      exact h
  | cons command commands ih =>
      rw [List.any_cons, ← Bool.or_assoc]
      exact ih (h.obey hc hd command) (hc.obey command) (hd.obey command)

/-- Home is where a fresh canvas starts, and going there takes the line in progress into the
drawing. -/
theorem goesOn_home (style : Style) (h : c.InOrder) :
    GoesOn c false (c.obey .home) (.new style) := by
  have hline : Command.home.endsLine = true := rfl
  obtain ⟨hfinished, hcurrent⟩ := obey_of_endsLine h hline
  refine ⟨?_, hcurrent, ?_, background_obey c rfl⟩
  · rw [pose_obey]
    rfl
  · rw [hfinished]
    exact (List.append_nil _).symm

/-- What is drawn after going home is what the same commands draw on a fresh canvas: the turtle ends
in the same pose, and its lines are added to the earlier ones. If the background is painted after
the seam, nothing is left of the earlier drawing and its background. -/
theorem drawn_home_append (style : Style) (before after : List Command) :
    let first := drawn style before
    let second := drawn style after
    let whole := drawn style (before ++ .home :: after)
    let painted := after.any Command.isBackground
    whole.position = second.position ∧ whole.heading = second.heading ∧
      whole.isDrawing = second.isDrawing ∧
      whole.lines = (if painted then second.lines else first.lines ++ second.lines) ∧
      whole.background = if painted then second.background else first.background := by
  intro first second whole painted
  have hfirst : first.InOrder := inOrder_drawn style before
  have hnew : (Canvas.new style).InOrder := inOrder_drawn style []
  have hwhole : whole = after.foldl obey (first.obey .home) := drawn_append style before _
  have hgoesOn : GoesOn first painted whole second := by
    rw [hwhole]
    exact (goesOn_home style hfirst).foldl (hfirst.obey .home) hnew after
  have hpose : whole.pose = second.pose := hgoesOn.pose
  refine ⟨congrArg Pose.position hpose, congrArg Pose.heading hpose,
    congrArg Pose.isDrawing hpose, ?_, hgoesOn.background⟩
  rw [hgoesOn.lines]
  cases painted with
  | true => exact List.nil_append _
  | false => rfl

end Seam

end TurtleScript
