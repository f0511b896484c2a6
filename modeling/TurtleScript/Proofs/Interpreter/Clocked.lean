import TurtleScript.Proofs.Interpreter.Walk

/-!
Clocked interpreters generalise the interpreter: their turtles are also told in which step they are
given a command, so that what happens when can be written down. Every interpreter is a clocked one
whose turtle does not care.
-/

namespace TurtleScript

universe u

/-- An interpreter whose turtle is told the number of the step with each command. -/
structure Clocked (σ : Type u) where
  tokens : Array Token
  table : CommandTable
  limits : Limits
  obey : Nat → σ → Command → σ

namespace Clocked

variable {σ : Type u}

open Interpreter (Runner)

/-- The interpreter during the turn that starts with a session. All commands that a turn gives by
itself are given in the step that follows. -/
def during (C : Clocked σ) (s : Session σ) : Interpreter σ where
  tokens := C.tokens
  table := C.table
  limits := C.limits
  obey := C.obey (s.steps + 1)

def exhausted (C : Clocked σ) (s : Session σ) : Bool :=
  s.exhausted C.limits.steps

/-- Moves the cursor from `index` until the frame is done. -/
def walk (C : Clocked σ) (inner : Option (Runner σ)) (frame : Frame) (index : Nat)
    (defining : Bool) (s : Session σ) : Nat × Session σ :=
  if h : index < C.tokens.size then
    if C.exhausted s then (C.tokens.size, s.cut)
    else
      match (C.during s).turn inner frame index C.tokens[index] defining s with
      | .halt s => (index, s)
      | .advance consumed defining s => C.walk inner frame (index + 1 + consumed) defining s
  else (C.tokens.size, s)
termination_by C.tokens.size - index

/-- How nested frames are run from a frame in which `room` more may be opened. -/
def below (C : Clocked σ) : (room : Nat) → Option (Runner σ)
  | 0 => none
  | room + 1 => some fun frame start s => C.walk (C.below room) frame start false s

theorem walk_of_size_le {C : Clocked σ} {inner : Option (Runner σ)} {frame : Frame} {index : Nat}
    {defining : Bool} {s : Session σ} (h : C.tokens.size ≤ index) :
    C.walk inner frame index defining s = (C.tokens.size, s) := by
  rw [walk, dif_neg (by omega)]

theorem walk_of_exhausted {C : Clocked σ} {inner : Option (Runner σ)} {frame : Frame}
    {index : Nat} {defining : Bool} {s : Session σ} (hlt : index < C.tokens.size)
    (h : C.exhausted s = true) :
    C.walk inner frame index defining s = (C.tokens.size, s.cut) := by
  rw [walk, dif_pos hlt, if_pos h]

theorem walk_of_running {C : Clocked σ} {inner : Option (Runner σ)} {frame : Frame} {index : Nat}
    {defining : Bool} {s : Session σ} (hlt : index < C.tokens.size)
    (h : C.exhausted s = false) :
    C.walk inner frame index defining s =
      match (C.during s).turn inner frame index C.tokens[index] defining s with
      | .halt s => (index, s)
      | .advance consumed defining s => C.walk inner frame (index + 1 + consumed) defining s := by
  rw [walk, dif_pos hlt, if_neg (by simp [h])]

def run (C : Clocked σ) (frame : Frame) (start : Nat) (s : Session σ) : Nat × Session σ :=
  C.walk (C.below C.limits.depth) frame start false s

end Clocked

namespace Interpreter

variable {σ : Type u}

/-- An interpreter as a clocked one with a turtle that does not care about steps. -/
def clocked (I : Interpreter σ) : Clocked σ where
  tokens := I.tokens
  table := I.table
  limits := I.limits
  obey _ := I.obey

theorem clocked_walk (I : Interpreter σ) (inner : Option (Runner σ)) (frame : Frame) (index : Nat)
    (defining : Bool) (s : Session σ) :
    I.clocked.walk inner frame index defining s = I.walk inner frame index defining s := by
  fun_induction walk I inner frame index defining s with
  | case1 index defining s hlt hexhausted =>
      exact Clocked.walk_of_exhausted hlt hexhausted
  | case2 index defining s hlt hexhausted next hturn =>
      have hlt' : index < I.clocked.tokens.size := hlt
      have hrunning : I.clocked.exhausted s = false := Bool.eq_false_iff.mpr hexhausted
      have hturn' : (I.clocked.during s).turn inner frame index I.clocked.tokens[index] defining s =
          .halt next := hturn
      rw [Clocked.walk_of_running hlt' hrunning, hturn']
  | case3 index defining s hlt hexhausted consumed defining' next hturn ih =>
      have hlt' : index < I.clocked.tokens.size := hlt
      have hrunning : I.clocked.exhausted s = false := Bool.eq_false_iff.mpr hexhausted
      have hturn' : (I.clocked.during s).turn inner frame index I.clocked.tokens[index] defining s =
          .advance consumed defining' next := hturn
      rw [Clocked.walk_of_running hlt' hrunning, hturn']
      exact ih
  | case4 index defining s hlt =>
      exact Clocked.walk_of_size_le (Nat.le_of_not_lt hlt)

theorem clocked_below (I : Interpreter σ) (room : Nat) : I.clocked.below room = I.below room := by
  induction room with
  | zero => rfl
  | succ room ih =>
      apply congrArg some
      funext frame start s
      rw [ih, clocked_walk, runWithin_eq]

theorem clocked_run (I : Interpreter σ) (frame : Frame) (start : Nat) (s : Session σ) :
    I.clocked.run frame start s = I.run frame start s := by
  rw [Clocked.run, clocked_below, clocked_walk, run, runWithin_eq]
  rfl

end Interpreter

namespace Clocked

variable {σ : Type u}

/-- Commands that a turtle can be given at all: those of the language, with a token of the script
for a colour, and those of the table, with a finite number where they take one. -/
inductive Gives (C : Clocked σ) : Command → Prop
  | save : C.Gives .save
  | background {colour : Token} (h : colour ∈ C.tokens) : C.Gives (.background colour.text)
  | plain {name : String} {command : Command} (h : C.table.find? name = some (.plain command)) :
      C.Gives command
  | numeric {name text : String} {make : Float → Command} {x : Float}
      (h : C.table.find? name = some (.numeric make)) (hx : Number.finite? text = some x) :
      C.Gives (make x)

/-- A session after one step that gives the turtle a command. -/
def give (C : Clocked σ) (s : Session σ) (command : Command) : Session σ :=
  (C.during s).tell s.tick command

/-- A property of sessions that whatever is run at a level keeps. -/
structure Stable (C : Clocked σ) (room : Nat) (P : Session σ → Prop) : Prop where
  walk : ∀ {frame index defining s}, P s → P (C.walk (C.below room) frame index defining s).2
  passes : ∀ {start body count last s}, P s →
    P ((C.during start).passes (C.below room) body count last s).2

end Clocked

end TurtleScript
