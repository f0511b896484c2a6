import TurtleScript.Proofs.Interpreter.Machine

/-!
The counter of open frames. The machine knows how deep it is from the frames that wait; a program
keeps a number instead, which it raises when it opens a frame and lowers when it leaves one, and
tests the limit on depth on that number. Here the machine is given such a counter beside its frames.
The counter is an integer, so that it could fall below zero.

The main statement is that the counter tells the truth: a counting machine that starts at zero takes
the same steps as the machine, and its counter is the number of frames that wait.
-/

namespace TurtleScript

universe u

namespace Machine

/-- A machine that counts the frames it has opened inside the first one. -/
structure Counting (σ : Type u) where
  depth : Int
  state : State σ

/-- A machine that has counted right. -/
def State.counted {σ : Type u} (x : State σ) : Counting σ :=
  ⟨x.depth, x⟩

end Machine

namespace Interpreter

open Machine

variable {σ : Type u} {I : Interpreter σ}

/-- Opens a frame and counts it, unless the counter has reached the limit. -/
def countingEnter (I : Interpreter σ) (depth : Int) (token : Token) (frame : Frame) (start : Nat)
    (waiting : Waiting) (refused : Cursor) (others : List Waiting) (s : Session σ) : Counting σ :=
  if depth < I.limits.depth then
    ⟨depth + 1, ⟨.read ⟨frame, start, false⟩, waiting :: others, s⟩⟩
  else ⟨depth, ⟨.read refused, others, s.skip (.depthLimit token.text)⟩⟩

/-- Runs the token under a cursor. -/
def countingRead (I : Interpreter σ) (depth : Int) (c : Cursor) (token : Token)
    (others : List Waiting) (s : Session σ) : Counting σ :=
  match I.opened? c token s with
  | some (.call body) =>
      I.countingEnter depth token .procedure body (.call c) (c.past 0) others s.tick
  | some (.loop word) =>
      ⟨depth, .pass c (passCount word) (Bracket.close I.tokens (c.index + 3)), others,
        counted word s.tick⟩
  | none => ⟨depth, following c others (I.turn none c.frame c.index token c.defining s)⟩

/-- The state that follows, with the counter. The stop of a frame that another one waits for takes
one off the counter; that of the first frame does not. -/
def countingNext (I : Interpreter σ) (m : Counting σ) : Option (Counting σ) :=
  match m.state.task with
  | .rest => none
  | .read c =>
      match I.tokens[c.index]? with
      | none => some ⟨m.depth, .leave I.tokens.size, m.state.waiting, m.state.session⟩
      | some token =>
          if I.exhausted m.state.session then
            some ⟨m.depth, .leave I.tokens.size, m.state.waiting, m.state.session.cut⟩
          else some (I.countingRead m.depth c token m.state.waiting m.state.session)
  | .pass c 0 last =>
      some ⟨m.depth, .read (c.past (last - c.index)), m.state.waiting, m.state.session⟩
  | .pass c (left + 1) _ =>
      if I.exhausted m.state.session then
        some ⟨m.depth, .read (c.past (I.tokens.size - c.index)), m.state.waiting,
          m.state.session.cut⟩
      else
        some (I.countingEnter m.depth .opening .loop (c.index + 3) (.loop c left)
          (c.past (Bracket.close I.tokens (c.index + 3) - c.index)) m.state.waiting
          m.state.session.tick)
  | .leave stop =>
      match m.state.waiting with
      | [] => some ⟨m.depth, .atRest m.state.session⟩
      | .call c :: others => some ⟨m.depth - 1, .read (c.past 0), others, m.state.session⟩
      | .loop c left :: others => some ⟨m.depth - 1, .pass c left stop, others, m.state.session⟩

/-- A counting machine takes a step, or a frame is run from an index while it is at rest. -/
inductive CountingMove (I : Interpreter σ) : Counting σ → Counting σ → Prop
  | step {m n : Counting σ} (h : I.countingNext m = some n) : CountingMove I m n
  | call (depth : Int) (frame : Frame) (start : Nat) (s : Session σ) :
      CountingMove I ⟨depth, .atRest s⟩ ⟨depth, .read ⟨frame, start, false⟩, [], s⟩

def CountingLeads (I : Interpreter σ) : Counting σ → Counting σ → Prop :=
  Relation.ReflTransGen I.CountingMove

theorem countingEnter_length (token : Token) (frame : Frame) (start : Nat) (waiting : Waiting)
    (refused : Cursor) (others : List Waiting) (s : Session σ) :
    I.countingEnter others.length token frame start waiting refused others s =
      (I.entering token frame start waiting refused others s).counted := by
  unfold countingEnter entering
  by_cases hopen : others.length < I.limits.depth
  · have hcounter : (others.length : Int) < I.limits.depth := by omega
    rw [if_pos hcounter, if_pos hopen]
    rfl
  · have hcounter : ¬ (others.length : Int) < I.limits.depth := by omega
    rw [if_neg hcounter, if_neg hopen]
    rfl

theorem depth_following {c : Cursor} {others : List Waiting} (t : Turn σ) :
    (following c others t).depth = others.length := by
  cases t <;> rfl

theorem countingRead_length (c : Cursor) (token : Token) (others : List Waiting) (s : Session σ) :
    I.countingRead others.length c token others s = (I.reading c token others s).counted := by
  unfold countingRead reading
  cases I.opened? c token s with
  | none => rw [State.counted, depth_following]
  | some opened =>
      cases opened with
      | call body => exact countingEnter_length _ _ _ _ _ _ _
      | loop word => rfl

/-- A machine that has counted right takes the step of the machine and counts it right. -/
theorem countingNext_counted (x : State σ) :
    I.countingNext x.counted = (I.next x).map State.counted := by
  obtain ⟨task, waiting, s⟩ := x
  cases task with
  | rest => rfl
  | read c =>
      cases htoken : I.tokens[c.index]? with
      | none =>
          simp only [countingNext, next, State.counted, htoken, Option.map_some]
          rfl
      | some token =>
          cases hexhausted : I.exhausted s with
          | true =>
              simp only [countingNext, next, State.counted, htoken, hexhausted, if_true,
                Option.map_some]
              rfl
          | false =>
              simp only [countingNext, next, State.counted, htoken, hexhausted, Bool.false_eq_true,
                if_false, Option.map_some]
              exact congrArg some (countingRead_length c token waiting s)
  | pass c left last =>
      cases left with
      | zero => rfl
      | succ left =>
          cases hexhausted : I.exhausted s with
          | true =>
              simp only [countingNext, next, State.counted, hexhausted, if_true, Option.map_some]
              rfl
          | false =>
              simp only [countingNext, next, State.counted, hexhausted, Bool.false_eq_true,
                if_false, Option.map_some]
              exact congrArg some (countingEnter_length _ _ _ _ _ _ _)
  | leave stop =>
      cases waiting with
      | nil => rfl
      | cons first others =>
          -- One frame fewer waits, and the counter falls by one.
          have hfewer : ((first :: others).length : Int) - 1 = others.length := by
            rw [List.length_cons]
            omega
          cases first with
          | call c =>
              exact congrArg
                (fun depth : Int => some (Counting.mk depth ⟨.read (c.past 0), others, s⟩)) hfewer
          | loop c left =>
              exact congrArg
                (fun depth : Int => some (Counting.mk depth ⟨.pass c left stop, others, s⟩)) hfewer

theorem countingMove_counted {x : State σ} {m : Counting σ} (h : I.CountingMove x.counted m) :
    ∃ y, I.Move x y ∧ m = y.counted := by
  generalize hcounted : x.counted = k at h
  cases h with
  | step hnext =>
      rw [← hcounted, countingNext_counted, Option.map_eq_some_iff] at hnext
      obtain ⟨y, hy, rfl⟩ := hnext
      exact ⟨y, .step hy, rfl⟩
  | call depth frame start s =>
      obtain rfl : x = .atRest s := congrArg Counting.state hcounted
      obtain rfl : (0 : Int) = depth := congrArg Counting.depth hcounted
      exact ⟨_, .call frame start s, rfl⟩

/-- Whatever a machine that has counted right comes to, it has counted right, and the machine comes
there without counting. -/
theorem leads_of_countingLeads {x : State σ} {m : Counting σ} (h : I.CountingLeads x.counted m) :
    ∃ y, I.Leads x y ∧ m = y.counted := by
  induction h with
  | refl => exact ⟨x, .refl, rfl⟩
  | tail _ hmove ih =>
      obtain ⟨y, hy, rfl⟩ := ih
      obtain ⟨z, hz, rfl⟩ := countingMove_counted hmove
      exact ⟨z, hy.tail hz, rfl⟩

theorem countingLeads_of_leads {x y : State σ} (h : I.Leads x y) :
    I.CountingLeads x.counted y.counted := by
  induction h with
  | refl => exact .refl
  | tail _ hmove ih =>
      refine ih.tail ?_
      cases hmove with
      | step hnext =>
          apply CountingMove.step
          rw [countingNext_counted, hnext]
          rfl
      | call frame start s => exact .call 0 frame start s

/-- A state with no more frames open than the limit allows, and with none while the machine is at
rest. -/
structure Bounded (I : Interpreter σ) (x : State σ) : Prop where
  depth_le : x.depth ≤ I.limits.depth
  rested : x.task = .rest → x.depth = 0

theorem bounded_of_busy {x : State σ} (hdepth : x.depth ≤ I.limits.depth) (hbusy : x.task ≠ .rest) :
    I.Bounded x :=
  ⟨hdepth, fun hrest => absurd hrest hbusy⟩

theorem bounded_entering {others : List Waiting} (h : others.length ≤ I.limits.depth)
    (token : Token) (frame : Frame) (start : Nat) (waiting : Waiting) (refused : Cursor)
    (s : Session σ) : I.Bounded (I.entering token frame start waiting refused others s) := by
  unfold entering
  split
  · rename_i hopen
    exact bounded_of_busy hopen (by simp)
  · exact bounded_of_busy h (by simp)

theorem bounded_reading {others : List Waiting} (h : others.length ≤ I.limits.depth) (c : Cursor)
    (token : Token) (s : Session σ) : I.Bounded (I.reading c token others s) := by
  unfold reading
  split
  · exact bounded_entering h _ _ _ _ _ _
  · exact bounded_of_busy h (by simp)
  · cases I.turn none c.frame c.index token c.defining s with
    | halt t => exact bounded_of_busy h (by simp [following])
    | advance consumed defining t => exact bounded_of_busy h (by simp [following])

/-- No step opens a frame beyond the limit, and the machine comes to rest only when no frame
waits. -/
theorem Bounded.next {x y : State σ} (hx : I.Bounded x) (hnext : I.next x = some y) :
    I.Bounded y := by
  obtain ⟨task, waiting, s⟩ := x
  have hwaiting : waiting.length ≤ I.limits.depth := hx.depth_le
  cases task with
  | rest => cases hnext
  | read c =>
      simp only [Interpreter.next] at hnext
      split at hnext
      · cases hnext
        exact bounded_of_busy hwaiting (by simp)
      · split at hnext
        · cases hnext
          exact bounded_of_busy hwaiting (by simp)
        · cases hnext
          exact bounded_reading hwaiting _ _ _
  | pass c left last =>
      cases left with
      | zero =>
          cases hnext
          exact bounded_of_busy hwaiting (by simp)
      | succ left =>
          simp only [Interpreter.next] at hnext
          split at hnext
          · cases hnext
            exact bounded_of_busy hwaiting (by simp)
          · cases hnext
            exact bounded_entering hwaiting _ _ _ _ _ _
  | leave stop =>
      cases waiting with
      | nil =>
          cases hnext
          exact ⟨Nat.zero_le _, fun _ => rfl⟩
      | cons first others =>
          have hothers : others.length ≤ I.limits.depth := Nat.le_of_succ_le hwaiting
          cases first with
          | call c =>
              cases hnext
              exact bounded_of_busy hothers (by simp)
          | loop c left =>
              cases hnext
              exact bounded_of_busy hothers (by simp)

theorem Bounded.leads {x y : State σ} (hx : I.Bounded x) (hleads : I.Leads x y) : I.Bounded y := by
  induction hleads with
  | refl => exact hx
  | tail _ hmove ih =>
      cases hmove with
      | step hnext => exact ih.next hnext
      | call frame start s => exact bounded_of_busy (Nat.zero_le _) (by simp)

theorem bounded_atRest (I : Interpreter σ) (s : Session σ) : I.Bounded (.atRest s) :=
  ⟨Nat.zero_le _, fun _ => rfl⟩

end Interpreter

end TurtleScript
