import TurtleScript.Proofs.Drawing.Canvas

/-!
Pictures that a script asks to keep. Keeping a picture changes nothing but the album of kept
pictures, and no command looks into the album, so a canvas goes the same way with saves and without
them. Each picture in the album is therefore the drawing that the commands before its save would
have made had nothing been kept before, and it stays as it is.
-/

namespace TurtleScript

namespace Command

def isSave : Command → Bool
  | save => true
  | _ => false

end Command

namespace Snapshots

open Canvas

def withoutSaves (commands : List Command) : List Command :=
  commands.filter fun command => !command.isSave

def saveCount (commands : List Command) : Nat :=
  commands.countP Command.isSave

/-- A canvas with nothing in its album. -/
def emptied (c : Canvas) : Canvas :=
  { c with saved := #[] }

theorem emptied_endLine (c : Canvas) : emptied c.endLine = (emptied c).endLine := by
  unfold Canvas.endLine
  cases hcurrent : c.current with
  | none => simp [emptied, hcurrent]
  | some line => by_cases hsize : line.size > 1 <;> simp [emptied, hcurrent, hsize]

/-- No command looks into the album, and saving does nothing else. -/
theorem emptied_obey (c : Canvas) (command : Command) :
    emptied (c.obey command) =
      if command.isSave then emptied c else (emptied c).obey command := by
  cases command with
  | penUp =>
      exact congrArg (fun d : Canvas => { d with isDrawing := false }) (emptied_endLine c)
  | home =>
      exact congrArg
        (fun d : Canvas => { d with position := .origin, heading := 0, isDrawing := true })
        (emptied_endLine c)
  | _ => rfl

theorem emptied_foldl (c : Canvas) (commands : List Command) :
    emptied (commands.foldl obey c) = (withoutSaves commands).foldl obey (emptied c) := by
  induction commands generalizing c with
  | nil => rfl
  | cons command commands ih =>
      rw [List.foldl_cons, ih, emptied_obey]
      cases hsave : command.isSave with
      | true => simp [withoutSaves, hsave]
      | false => simp [withoutSaves, hsave]

/-- Without its saves a list of commands gives the same canvas, but for the album. -/
theorem drawn_withoutSaves (style : Style) (commands : List Command) :
    drawn style (withoutSaves commands) = emptied (drawn style commands) :=
  (emptied_foldl (.new style) commands).symm

theorem saved_endLine (c : Canvas) : c.endLine.saved = c.saved := by
  unfold Canvas.endLine
  split
  · split <;> rfl
  · rfl

/-- The album grows by the present picture with each save and stays as it is otherwise. -/
theorem saved_obey (c : Canvas) (command : Command) :
    (c.obey command).saved = if command.isSave then c.saved.push c.picture else c.saved := by
  cases command with
  | penUp => exact saved_endLine c
  | home => exact saved_endLine c
  | _ => rfl

theorem size_saved_foldl (c : Canvas) (commands : List Command) :
    (commands.foldl obey c).saved.size = c.saved.size + saveCount commands := by
  induction commands generalizing c with
  | nil => rfl
  | cons command commands ih =>
      rw [List.foldl_cons, ih, saved_obey]
      cases hsave : command.isSave with
      | true =>
          have hcount : saveCount (command :: commands) = saveCount commands + 1 :=
            List.countP_cons_of_pos hsave
          rw [if_pos rfl, Array.size_push, hcount]
          omega
      | false =>
          have hcount : saveCount (command :: commands) = saveCount commands :=
            List.countP_cons_of_neg (by simp [hsave])
          rw [if_neg (by simp), hcount]

theorem size_saved_drawn (style : Style) (commands : List Command) :
    (drawn style commands).saved.size = saveCount commands := by
  have hsize := size_saved_foldl (.new style) commands
  rw [show (Canvas.new style).saved.size = 0 from rfl, Nat.zero_add] at hsize
  exact hsize

/-- What is in the album stays there. -/
theorem saved_prefix_foldl (c : Canvas) (commands : List Command) :
    c.saved.toList <+: (commands.foldl obey c).saved.toList := by
  induction commands generalizing c with
  | nil => exact List.prefix_rfl
  | cons command commands ih =>
      have hstep : c.saved.toList <+: (c.obey command).saved.toList := by
        rw [saved_obey]
        split
        · rw [Array.toList_push]
          exact List.prefix_append _ _
        · exact List.prefix_rfl
      exact hstep.trans (ih (c.obey command))

/-- A save puts the picture of the commands before it into the album. -/
theorem saved_at_save (style : Style) (before after : List Command) :
    (drawn style (before ++ .save :: after)).saved[saveCount before]? =
      some (drawn style before).picture := by
  rw [drawn_append, List.foldl_cons]
  obtain ⟨rest, hrest⟩ := saved_prefix_foldl ((drawn style before).obey .save) after
  have hpush : ((drawn style before).obey .save).saved =
      (drawn style before).saved.push (drawn style before).picture := saved_obey _ _
  rw [← Array.getElem?_toList, ← hrest, hpush, ← size_saved_drawn style before]
  simp

/-- Kept pictures are faithful and inert. There is one for each save, in order, and it is the
picture of the commands before that save without the saves among them; later commands leave it as
it is; and without its saves a list of commands leads to the same pose and the same drawing. -/
theorem saved_drawn (style : Style) (commands : List Command) :
    let c := drawn style commands
    let d := drawn style (withoutSaves commands)
    c.saved.size = saveCount commands ∧
      (∀ before after, commands = before ++ .save :: after →
        c.saved[saveCount before]? = some (drawn style (withoutSaves before)).picture) ∧
      (∀ later, c.saved.toList <+: (drawn style (commands ++ later)).saved.toList) ∧
      d.position = c.position ∧ d.heading = c.heading ∧ d.isDrawing = c.isDrawing ∧
      d.background = c.background ∧ d.lines = c.lines ∧ d.picture = c.picture := by
  intro c d
  have hsame : d = emptied c := drawn_withoutSaves style commands
  refine ⟨size_saved_drawn style commands, ?_, ?_, ?_⟩
  · intro before after hcommands
    have hsaved := saved_at_save style before after
    rw [← hcommands] at hsaved
    rw [hsaved, drawn_withoutSaves]
    rfl
  · intro later
    rw [drawn_append]
    exact saved_prefix_foldl c later
  · rw [hsame]
    exact ⟨rfl, rfl, rfl, rfl, rfl, rfl⟩

/-- A picture is kept in the middle of a line, and another after the drawing has been covered. -/
def midway : List Command :=
  [.forward 1, .save, .forward 2, .background "red", .save, .home]

theorem saved_drawn_midway :
    midway = [.forward 1, .save, .forward 2, .background "red"] ++ .save :: [.home] ∧
      (drawn .standard midway).saved.size = 2 ∧
      (drawn .standard midway).saved[1]? =
        some (drawn .standard [.forward 1, .forward 2, .background "red"]).picture := by
  obtain ⟨hsize, hsaved, -⟩ := saved_drawn .standard midway
  exact ⟨rfl, hsize, hsaved [.forward 1, .save, .forward 2, .background "red"] [.home] rfl⟩

end Snapshots

end TurtleScript
