import TurtleScript.Proofs.Drawing.DocumentText
import TurtleScript.Proofs.Drawing.Seam

/-!
What a canvas keeps in order while it draws. A line of a canvas is a start and the points it goes to, so it
can be nothing but one move followed by lines. A pen that writes path data knows no such shape: a plotter is
a turtle that writes path elements one after the other as it goes, and what it has written is shown here to
be the lines of the canvas, element by element.

Every line goes somewhere, and the one in progress has the pen down on it where the turtle stands. So a line
that is ended is never one that would be dropped, and commands that do not move the turtle on paper or cover
the drawing leave it as it is.
-/

namespace TurtleScript

/-- An element of path data: the pen is put down at a point, or goes to it in a straight line. -/
inductive PathElement where
  | moveTo (p : Point)
  | lineTo (p : Point)

namespace PathElement

def text : PathElement → String
  | moveTo p => "M" ++ p.text
  | lineTo p => "L" ++ p.text

/-- Path data that is one move followed by lines only, of which there is at least one. -/
def IsStroke (path : List PathElement) : Prop :=
  ∃ start points, points ≠ [] ∧ path = .moveTo start :: points.map .lineTo

end PathElement

namespace Polyline

/-- A line as path elements. -/
def elements (line : Polyline) : List PathElement :=
  .moveTo line.start :: line.points.toList.map .lineTo

theorem text_eq (line : Polyline) :
    line.text = " ".intercalate (line.elements.map PathElement.text) := by
  rw [text, elements, List.map_cons, List.map_map]
  rfl

theorem length_elements (line : Polyline) : line.elements.length = line.size := by
  simp [elements, size]

theorem elements_lineTo (line : Polyline) (p : Point) :
    (line.lineTo p).elements = line.elements ++ [.lineTo p] := by
  simp [elements, lineTo]

theorem isStroke_elements {line : Polyline} (h : line.points ≠ #[]) :
    PathElement.IsStroke line.elements := by
  refine ⟨line.start, line.points.toList, ?_, rfl⟩
  intro hempty
  exact h (Array.toList_eq_nil_iff.mp hempty)

end Polyline

/-- A turtle that writes path elements wherever its pen goes. -/
structure Plotter where
  pose : Pose
  finished : Array (List PathElement)
  current : Option (List PathElement)

namespace Plotter

def new : Plotter := ⟨.home, #[], none⟩

/-- Writes a line to a point if the pen is down, after a move to where the turtle stands if it has not
written anything since the pen was put down. -/
def writeLine (p : Plotter) (destination : Point) : Plotter :=
  if p.pose.isDrawing then
    { p with current := some (p.current.getD [.moveTo p.pose.position] ++ [.lineTo destination]) }
  else p

/-- Ends the path in progress. A single element is dropped. -/
def endPath (p : Plotter) : Plotter :=
  match p.current with
  | some path =>
      if path.length > 1 then { p with finished := p.finished.push path, current := none }
      else { p with current := none }
  | none => p

/-- What a command does to the paths. -/
def write (p : Plotter) (command : Command) : Plotter :=
  match command with
  | .forward _ => p.writeLine (p.pose.follow command).position
  | .back _ => p.writeLine (p.pose.follow command).position
  | .penUp => p.endPath
  | .home => p.endPath
  | .background _ => { p with finished := #[], current := none }
  | _ => p

def obey (p : Plotter) (command : Command) : Plotter :=
  { p.write command with pose := p.pose.follow command }

/-- What is written from home on. -/
def plotted (commands : List Command) : Plotter :=
  commands.foldl obey new

end Plotter

namespace Command

/-- Turning, lifting the pen or putting it down, going home and saving. -/
def leavesDrawing : Command → Bool
  | right _ => true
  | left _ => true
  | setHeading _ => true
  | penUp => true
  | penDown => true
  | home => true
  | save => true
  | forward _ => false
  | back _ => false
  | background _ => false

end Command

namespace Canvas

/-- The pose of a canvas and its lines as path elements. -/
def plotter (c : Canvas) : Plotter where
  pose := c.pose
  finished := c.finished.map Polyline.elements
  current := c.current.map Polyline.elements

variable {c : Canvas} {command : Command}

theorem plotter_travel (c : Canvas) (distance : Float) :
    (c.travel distance).plotter =
      { c.plotter.writeLine (c.travel distance).position with pose := (c.travel distance).pose } := by
  cases hdrawing : c.isDrawing with
  | false => simp [plotter, travel, Plotter.writeLine, pose, hdrawing]
  | true =>
      have hprolonged : (c.current.getD ⟨c.position, #[]⟩).elements =
          (c.current.map Polyline.elements).getD [.moveTo c.position] := by
        cases c.current with
        | none => rfl
        | some line => rfl
      simp [plotter, travel, Plotter.writeLine, pose, hdrawing, Polyline.elements_lineTo, hprolonged]

theorem plotter_endLine (c : Canvas) : c.endLine.plotter = c.plotter.endPath := by
  cases hcurrent : c.current with
  | none => simp [endLine, plotter, Plotter.endPath, hcurrent]
  | some line =>
      by_cases hsize : line.size > 1 <;>
        simp [endLine, plotter, Plotter.endPath, hcurrent, Polyline.length_elements, hsize, pose]

/-- A canvas draws what the plotter writes. -/
theorem plotter_obey (c : Canvas) (command : Command) :
    (c.obey command).plotter = c.plotter.obey command := by
  -- Both follow the command to the same pose, so only what is written is compared case by case.
  have hwrite : (c.obey command).plotter =
      { c.plotter.write command with pose := (c.obey command).pose } := by
    cases command with
    | forward distance => exact c.plotter_travel distance
    | back distance => exact c.plotter_travel (-distance)
    | background colour => simp [obey, paint, plotter, Plotter.write]
    | penUp =>
        rw [Plotter.write, ← plotter_endLine]
        rfl
    | home =>
        rw [Plotter.write, ← plotter_endLine]
        rfl
    | _ => rfl
  rw [hwrite, pose_obey]
  rfl

theorem plotter_drawn (style : Style) (commands : List Command) :
    (drawn style commands).plotter = Plotter.plotted commands := by
  have hfold (c : Canvas) :
      (commands.foldl obey c).plotter = commands.foldl Plotter.obey c.plotter := by
    induction commands generalizing c with
    | nil => rfl
    | cons command commands ih => rw [List.foldl_cons, ih, plotter_obey, List.foldl_cons]
  have hnew : (new style).plotter = .new := by
    simp [plotter, new, Plotter.new, pose, Pose.home]
  rw [drawn, hfold, hnew]
  rfl

/-- Ending the line in progress, if it has to be ended, takes it into the drawing. -/
theorem InOrder.lines_obey (h : c.InOrder) (hleaves : command.leavesDrawing = true) :
    (c.obey command).lines = c.lines := by
  cases command with
  | forward distance => cases hleaves
  | back distance => cases hleaves
  | background colour => cases hleaves
  | penUp => exact h.lines_endLine
  | home => exact h.lines_endLine
  | _ => rfl

theorem InOrder.picture_obey (h : c.InOrder) (hleaves : command.leavesDrawing = true) :
    (c.obey command).picture = c.picture := by
  have hplain : command.isBackground = false := by
    cases command with
    | background colour => cases hleaves
    | _ => rfl
  rw [picture, style_obey, Seam.background_obey c hplain, h.lines_obey hleaves]
  rfl

/-- Every line has a point that it goes to. -/
def GoesSomewhere (c : Canvas) : Prop :=
  ∀ line ∈ c.lines, line.points ≠ #[]

theorem GoesSomewhere.travel (h : c.GoesSomewhere) (distance : Float) :
    (c.travel distance).GoesSomewhere := by
  intro line hline
  rcases List.mem_append.mp hline with hfinished | hcurrent
  · apply h line
    exact List.mem_append_left _ hfinished
  · rw [Option.mem_toList] at hcurrent
    cases hdrawing : c.isDrawing with
    | false =>
        apply h line
        apply List.mem_append_right
        rw [Option.mem_toList]
        simpa [Canvas.travel, hdrawing] using hcurrent
    | true =>
        simp only [Canvas.travel, hdrawing, if_true, Option.some.injEq] at hcurrent
        rw [← hcurrent]
        simp [Polyline.lineTo]

theorem GoesSomewhere.obey (h : c.GoesSomewhere) (horder : c.InOrder) (command : Command) :
    (c.obey command).GoesSomewhere := by
  cases hleaves : command.leavesDrawing with
  | true =>
      rw [GoesSomewhere, horder.lines_obey hleaves]
      exact h
  | false =>
      -- What is left are the two moves, which add a point, and painting, which leaves no line.
      cases command with
      | forward distance => exact h.travel distance
      | back distance => exact h.travel (-distance)
      | background colour =>
          intro line hline
          cases hline
      | _ => cases hleaves

theorem goesSomewhere_drawn (style : Style) (commands : List Command) :
    (drawn style commands).GoesSomewhere := by
  have hfold (c : Canvas) (h : c.GoesSomewhere) (horder : c.InOrder) :
      (commands.foldl Canvas.obey c).GoesSomewhere := by
    induction commands generalizing c with
    | nil => exact h
    | cons command commands ih => exact ih _ (h.obey horder command) (horder.obey command)
  apply hfold
  · intro line hline
    cases hline
  · exact inOrder_of_current_eq_none rfl

/-- A line in progress ends with a line to where the turtle stands. -/
theorem InOrder.getLast?_elements (h : c.InOrder) {line : Polyline} (hline : c.current = some line) :
    line.elements.getLast? = some (.lineTo c.position) := by
  have harrived := h.arrived line hline
  rw [← Array.getLast?_toList] at harrived
  simp [Polyline.elements, List.getLast?_cons, harrived]

/-- A canvas is in order after any commands. It has drawn what a plotter writes; the line in progress has the
pen down on it, at least two elements, and ends where the turtle stands; every line is one move followed by
lines, at least one, and is written so; and a command that leaves the drawing changes no line of it and
nothing in its document. -/
theorem drawing_in_order (style : Style) (commands : List Command) :
    let c := drawn style commands
    c.plotter = Plotter.plotted commands ∧
    (∀ line, c.current = some line →
      c.isDrawing = true ∧ 2 ≤ line.elements.length ∧
        line.elements.getLast? = some (.lineTo c.position)) ∧
    (∀ line ∈ c.lines, PathElement.IsStroke line.elements ∧
      line.text = " ".intercalate (line.elements.map PathElement.text)) ∧
    ∀ command, command.leavesDrawing = true →
      (c.obey command).lines = c.lines ∧
        (c.obey command).picture.document = c.picture.document := by
  intro c
  have horder : c.InOrder := inOrder_drawn style commands
  have hsomewhere : c.GoesSomewhere := goesSomewhere_drawn style commands
  refine ⟨plotter_drawn style commands, ?_, ?_, ?_⟩
  · intro line hline
    have hpoints : 0 < line.points.size := by
      apply Array.size_pos_iff.mpr
      apply hsomewhere line
      simp [lines, hline]
    refine ⟨horder.drawing line hline, ?_, horder.getLast?_elements hline⟩
    rw [Polyline.length_elements]
    exact Nat.succ_le_succ hpoints
  · intro line hline
    exact ⟨Polyline.isStroke_elements (hsomewhere line hline), line.text_eq⟩
  · intro command hleaves
    exact ⟨horder.lines_obey hleaves, congrArg Picture.document (horder.picture_obey hleaves)⟩

/-- One line is done, and the pen is on another. -/
def halfway : List Command :=
  [.forward 1, .right 90, .forward 2, .penUp, .back 1, .penDown, .forward 3]

theorem drawing_in_order_halfway :
    let c := drawn .standard halfway
    (∃ line, c.current = some line ∧ line ∈ c.lines ∧ c.isDrawing = true ∧
      2 ≤ line.elements.length ∧ line.elements.getLast? = some (.lineTo c.position) ∧
      PathElement.IsStroke line.elements) ∧
    Command.penUp.leavesDrawing = true ∧ (c.obey .penUp).lines = c.lines ∧
      (c.obey .penUp).picture.document = c.picture.document := by
  intro c
  obtain ⟨-, hcurrent, hlines, hleaves⟩ := drawing_in_order .standard halfway
  obtain ⟨line, hline⟩ : ∃ line, c.current = some line := ⟨_, rfl⟩
  have hmem : line ∈ c.lines := by simp [lines, hline]
  obtain ⟨hdown, hlength, hlast⟩ := hcurrent line hline
  obtain ⟨hstroke, -⟩ := hlines line hmem
  exact ⟨⟨line, hline, hmem, hdown, hlength, hlast, hstroke⟩, rfl, hleaves .penUp rfl⟩

end Canvas

end TurtleScript
