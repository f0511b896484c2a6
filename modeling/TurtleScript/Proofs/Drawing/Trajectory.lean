import Mathlib.Data.List.DropRight
import TurtleScript.Proofs.Drawing.Canvas

/-!
The drawing on a canvas is the way of the turtle while its pen was down. `trajectory` reads the
drawing off the commands: nothing counts that comes before the last background, the rest is cut
into pieces wherever the pen is lifted or the turtle goes home, and each piece with a move on paper
in it is one line. How far a move goes is never looked into.

A canvas works differently. It keeps one line in progress and prolongs it move by move, so the
statement is generalised to a canvas in which a line has been begun: the first piece prolongs that
line, and only the other pieces are lines of their own.
-/

namespace TurtleScript

namespace Command

/-- Commands that move the turtle along its heading. -/
def isMove : Command → Bool
  | forward _ => true
  | back _ => true
  | _ => false

/-- Commands after which no line goes on. -/
def endsLine : Command → Bool
  | penUp => true
  | home => true
  | _ => false

def isBackground : Command → Bool
  | background _ => true
  | _ => false

end Command

namespace Polyline

/-- The segments from a point along others. -/
def segmentsFrom : Point → List Point → List (Point × Point)
  | _, [] => []
  | p, q :: rest => (p, q) :: segmentsFrom q rest

/-- The straight parts of a line, by their two ends. -/
def segments (line : Polyline) : List (Point × Point) :=
  segmentsFrom line.start line.points.toList

theorem segmentsFrom_concat (p q : Point) (points : List Point) :
    segmentsFrom p (points ++ [q]) = segmentsFrom p points ++ [(points.getLast?.getD p, q)] := by
  induction points generalizing p with
  | nil => rfl
  | cons first rest ih =>
      have hlast : (first :: rest).getLast?.getD p = rest.getLast?.getD first := by
        rw [List.getLast?_cons, Option.getD_some]
      rw [List.cons_append, segmentsFrom, segmentsFrom, ih, hlast]
      rfl

theorem segments_lineTo (line : Polyline) (q : Point) :
    (line.lineTo q).segments = line.segments ++ [(line.points.back?.getD line.start, q)] := by
  have hpoints : (line.lineTo q).points.toList = line.points.toList ++ [q] := by
    simp [lineTo]
  unfold segments
  rw [hpoints, segmentsFrom_concat, Array.getLast?_toList]
  rfl

end Polyline

namespace Trajectory

/-- A command and the pose in which a turtle follows it. -/
structure Act where
  pose : Pose
  command : Command

namespace Act

def endsLine (a : Act) : Bool :=
  a.command.endsLine

/-- Whether the turtle moves with its pen down. -/
def draws (a : Act) : Bool :=
  a.pose.isDrawing && a.command.isMove

/-- Where the turtle stands afterwards. -/
def reached (a : Act) : Point :=
  (a.pose.follow a.command).position

/-- The straight part that a move draws. -/
def segment (a : Act) : Point × Point :=
  (a.pose.position, a.reached)

end Act

/-- What a turtle does that follows commands from a pose. -/
def acts : Pose → List Command → List Act
  | _, [] => []
  | p, command :: rest => ⟨p, command⟩ :: acts (p.follow command) rest

/-- The commands up to the last background. -/
def covered (commands : List Command) : List Command :=
  commands.rdropWhile fun command => !command.isBackground

/-- The commands after the last background. -/
def uncovered (commands : List Command) : List Command :=
  commands.rtakeWhile fun command => !command.isBackground

/-- What a turtle from home does after the last background. -/
def visible (commands : List Command) : List Act :=
  acts (Pose.home.after (covered commands)) (uncovered commands)

/-- The line that comes of a piece, if anything is drawn in it: it starts where the first move with
the pen down does, and goes to where each of these moves ends. -/
def line? (piece : List Act) : Option Polyline :=
  match piece.filter Act.draws with
  | [] => none
  | first :: rest => some ⟨first.pose.position, ((first :: rest).map Act.reached).toArray⟩

/-- The lines that a turtle from home draws, as the commands tell. -/
def trajectory (commands : List Command) : List Polyline :=
  ((visible commands).splitOnP Act.endsLine).filterMap line?

/-- The line in progress after one act that does not end it. -/
def prolong (current : Option Polyline) (a : Act) : Option Polyline :=
  if a.draws then some ((current.getD ⟨a.pose.position, #[]⟩).lineTo a.reached) else current

theorem foldl_prolong_some (line : Polyline) (piece : List Act) :
    piece.foldl prolong (some line) =
      some ⟨line.start, line.points ++ ((piece.filter Act.draws).map Act.reached).toArray⟩ := by
  induction piece generalizing line with
  | nil => simp
  | cons a piece ih =>
      rw [List.foldl_cons]
      cases hdraws : a.draws with
      | true => simp [prolong, hdraws, ih, Polyline.lineTo]
      | false => simp [prolong, hdraws, ih]

/-- A piece at whose start no line is in progress gives its own line. -/
theorem foldl_prolong_none (piece : List Act) : piece.foldl prolong none = line? piece := by
  induction piece with
  | nil => rfl
  | cons a piece ih =>
      rw [List.foldl_cons]
      cases hdraws : a.draws with
      | true => simp [prolong, hdraws, foldl_prolong_some, line?, Polyline.lineTo]
      | false => simp [prolong, hdraws, ih, line?]

/-- The lines that come of pieces when a line may be in progress, which the first piece prolongs. -/
def continued (current : Option Polyline) : List (List Act) → List Polyline
  | [] => current.toList
  | first :: rest => (first.foldl prolong current).toList ++ rest.filterMap line?

theorem continued_none {pieces : List (List Act)} :
    continued none pieces = pieces.filterMap line? := by
  cases pieces with
  | nil => rfl
  | cons first rest =>
      rw [continued, foldl_prolong_none, List.filterMap_cons]
      cases line? first <;> rfl

theorem continued_modifyHead (current : Option Polyline) (a : Act) {pieces : List (List Act)}
    (h : pieces ≠ []) :
    continued current (pieces.modifyHead (List.cons a)) = continued (prolong current a) pieces := by
  cases pieces with
  | nil => exact absurd rfl h
  | cons first rest => rfl

variable {c : Canvas} {command : Command} {commands : List Command}

theorem prolong_of_not_move (current : Option Polyline) (p : Pose) (h : command.isMove = false) :
    prolong current ⟨p, command⟩ = current := by
  simp [prolong, Act.draws, h]

theorem current_travel {distance : Float} (hmove : command.isMove = true)
    (hreached : Act.reached ⟨c.pose, command⟩ = c.position.ahead c.heading distance) :
    (c.travel distance).current = prolong c.current ⟨c.pose, command⟩ := by
  rw [prolong, hreached, Act.draws, hmove, Bool.and_true]
  rfl

/-- A command that neither ends the line nor covers the drawing can only prolong the line. -/
theorem obey_of_goes_on (hline : command.endsLine = false) (hplain : command.isBackground = false) :
    (c.obey command).finished = c.finished ∧
      (c.obey command).current = prolong c.current ⟨c.pose, command⟩ := by
  cases command with
  | penUp => cases hline
  | home => cases hline
  | background colour => cases hplain
  | forward distance => exact ⟨rfl, current_travel rfl rfl⟩
  | back distance => exact ⟨rfl, current_travel rfl rfl⟩
  | _ => exact ⟨rfl, (prolong_of_not_move _ _ rfl).symm⟩

/-- A command that ends the line takes it into the drawing. -/
theorem obey_of_endsLine (h : c.InOrder) (hline : command.endsLine = true) :
    (c.obey command).finished.toList = c.lines ∧ (c.obey command).current = none := by
  cases command with
  | penUp => simp [Canvas.obey, h.endLine_eq]
  | home => simp [Canvas.obey, Canvas.goHome, h.endLine_eq]
  | _ => cases hline

/-- From any canvas on, commands without a background prolong the line in progress by their first
piece and add a line for every other one. -/
theorem lines_foldl (h : c.InOrder) (hplain : ∀ command ∈ commands, command.isBackground = false) :
    (commands.foldl Canvas.obey c).lines =
      c.finished.toList ++ continued c.current ((acts c.pose commands).splitOnP Act.endsLine) := by
  induction commands generalizing c with
  | nil => simp [acts, continued, Canvas.lines]
  | cons command commands ih =>
      obtain ⟨hfirst, hrest⟩ := List.forall_mem_cons.mp hplain
      rw [List.foldl_cons, ih (h.obey command) hrest, c.pose_obey, acts,
        List.splitOnP_cons_eq_if_modifyHead]
      cases hline : command.endsLine with
      | true =>
          obtain ⟨hfinished, hcurrent⟩ := obey_of_endsLine h hline
          rw [if_pos (show Act.endsLine ⟨c.pose, command⟩ = true from hline), hfinished, hcurrent,
            continued_none, Canvas.lines, List.append_assoc]
          rfl
      | false =>
          obtain ⟨hfinished, hcurrent⟩ := obey_of_goes_on (c := c) hline hfirst
          rw [if_neg (show ¬ Act.endsLine ⟨c.pose, command⟩ = true by simp [Act.endsLine, hline]),
            hfinished, hcurrent, continued_modifyHead _ _ (List.splitOnP_ne_nil _ _)]

/-- A single command without a background adds the segment that it draws, if it draws one. -/
theorem segments_obey (h : c.InOrder) (hplain : command.isBackground = false) :
    (c.obey command).lines.flatMap Polyline.segments =
      c.lines.flatMap Polyline.segments ++
        ([Act.mk c.pose command].filter Act.draws).map Act.segment := by
  cases hline : command.endsLine with
  | true =>
      obtain ⟨hfinished, hcurrent⟩ := obey_of_endsLine h hline
      have hdraws : Act.draws ⟨c.pose, command⟩ = false := by
        cases command <;> simp_all [Act.draws, Command.isMove, Command.endsLine]
      rw [Canvas.lines, hfinished, hcurrent]
      simp [hdraws]
  | false =>
      obtain ⟨hfinished, hcurrent⟩ := obey_of_goes_on (c := c) hline hplain
      rw [Canvas.lines, hfinished, hcurrent]
      cases hdraws : Act.draws ⟨c.pose, command⟩ with
      | false => simp [prolong, hdraws, Canvas.lines]
      | true =>
          have hposition : c.pose.position = c.position := rfl
          cases hbefore : c.current with
          | none =>
              have hnew : Polyline.segments ⟨c.pose.position, #[]⟩ = [] := rfl
              simp [prolong, hdraws, hbefore, Canvas.lines, Polyline.segments_lineTo, Act.segment,
                hnew]
          | some line =>
              -- The line has arrived where the turtle stands, which is where the move begins.
              have harrived := h.arrived line hbefore
              simp [prolong, hdraws, hbefore, Canvas.lines, Polyline.segments_lineTo, harrived,
                Act.segment, hposition]

theorem segments_foldl (h : c.InOrder)
    (hplain : ∀ command ∈ commands, command.isBackground = false) :
    (commands.foldl Canvas.obey c).lines.flatMap Polyline.segments =
      c.lines.flatMap Polyline.segments ++
        ((acts c.pose commands).filter Act.draws).map Act.segment := by
  induction commands generalizing c with
  | nil => simp [acts]
  | cons command commands ih =>
      obtain ⟨hfirst, hrest⟩ := List.forall_mem_cons.mp hplain
      have hacts : acts c.pose (command :: commands) =
          [⟨c.pose, command⟩] ++ acts (c.pose.follow command) commands := rfl
      rw [List.foldl_cons, ih (h.obey command) hrest, segments_obey h hfirst, c.pose_obey,
        hacts, List.filter_append, List.map_append, List.append_assoc]

/-- The canvas right after the last background: nothing is left on it. -/
theorem drawn_covered (style : Style) (commands : List Command) :
    (Canvas.drawn style (covered commands)).finished = #[] ∧
      (Canvas.drawn style (covered commands)).current = none := by
  rcases List.eq_nil_or_concat (covered commands) with hnil | ⟨before, last, hconcat⟩
  · rw [hnil]
    exact ⟨rfl, rfl⟩
  · rw [hconcat, List.concat_eq_append, Canvas.drawn_append]
    have hlast : last.isBackground = true := by
      have hne : covered commands ≠ [] := by simp [hconcat]
      have hnot : ¬ (!((covered commands).getLast hne).isBackground) = true :=
        List.rdropWhile_last_not (fun command : Command => !command.isBackground) commands hne
      have hget : (covered commands).getLast hne = last := by simp [hconcat]
      rw [hget] at hnot
      simpa using hnot
    cases last with
    | background colour => exact ⟨rfl, rfl⟩
    | _ => cases hlast

/-- A canvas draws exactly the way of its turtle with the pen down. Its lines are those that the
commands tell; their segments are the moves with the pen down since the last background, each of
them once and in order; and ending a line never drops it. -/
theorem lines_drawn (style : Style) (commands : List Command) :
    (Canvas.drawn style commands).lines = trajectory commands ∧
      (Canvas.drawn style commands).lines.flatMap Polyline.segments =
        ((visible commands).filter Act.draws).map Act.segment ∧
      (Canvas.drawn style commands).endLine.lines = (Canvas.drawn style commands).lines := by
  let c := Canvas.drawn style (covered commands)
  have hsplit : Canvas.drawn style commands = (uncovered commands).foldl Canvas.obey c := by
    rw [← Canvas.drawn_append, covered, uncovered, List.rdropWhile_append_rtakeWhile]
  have hplain : ∀ command ∈ uncovered commands, command.isBackground = false := by
    intro command hcommand
    simpa using List.mem_rtakeWhile_imp hcommand
  have horder : c.InOrder := Canvas.inOrder_drawn style (covered commands)
  have hpose : c.pose = Pose.home.after (covered commands) := Canvas.pose_foldl _ _
  obtain ⟨hfinished, hcurrent⟩ : c.finished = #[] ∧ c.current = none := drawn_covered style commands
  refine ⟨?_, ?_, (Canvas.inOrder_drawn style commands).lines_endLine⟩
  · rw [hsplit, lines_foldl horder hplain, hfinished, hcurrent, continued_none, hpose]
    rfl
  · rw [hsplit, segments_foldl horder hplain, hpose]
    simp [Canvas.lines, hfinished, hcurrent, visible]

end Trajectory

end TurtleScript
