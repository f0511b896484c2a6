import TurtleScript.Proofs.Interpreter.Machine

/-!
The work that is left to a machine: a number of steps that it cannot exceed. It is reckoned from
three things that run out, namely the room for further frames, the tokens that lie ahead of each
cursor, and the passes that are left of each loop.

The main statement is that every step leaves less work. A token is reckoned at more than all frames
that it can open, since these have less room than its own frame and no word asks for more passes
than some word of the script does. So machines end, also without a limit on steps and also where
procedures call themselves.
-/

namespace TurtleScript

universe u

namespace Interpreter

open Machine

variable {σ : Type u}

/-- The most passes that a word of the script asks for. -/
def mostPasses (I : Interpreter σ) : Nat :=
  (I.tokens.toList.map passCount).foldr max 0

/-- What a frame is reckoned at that is opened where `room` more frames may be opened: more than all
tokens of the script, each of which may open as many frames as there are passes. -/
def passWork (I : Interpreter σ) : (room : Nat) → Nat
  | 0 => 1
  | room + 1 => I.tokens.size * ((I.mostPasses + 1) * I.passWork room + 2) + 3

/-- What a token is reckoned at in a frame in which `room` more may be opened. -/
def tokenWork (I : Interpreter σ) (room : Nat) : Nat :=
  (I.mostPasses + 1) * I.passWork room + 2

/-- The work left to a frame whose cursor stands at an index. -/
def frameWork (I : Interpreter σ) (room index : Nat) : Nat :=
  (I.tokens.size - index) * I.tokenWork room + 2

/-- The work left to a frame with so many passes left of the loop at an index. -/
def loopWork (I : Interpreter σ) (room index left : Nat) : Nat :=
  I.frameWork room (index + 1) + left * I.passWork room + 1

def taskWork (I : Interpreter σ) (room : Nat) : Task → Nat
  | .rest => 0
  | .read c => I.frameWork room c.index
  | .pass c left _ => I.loopWork room c.index left
  | .leave _ => 1

/-- The work left to a frame after the one that it waits for. -/
def suspendedWork (I : Interpreter σ) (room : Nat) : Waiting → Nat
  | .call c => I.frameWork room (c.index + 1)
  | .loop c left => I.loopWork room c.index left

/-- The work left to the frames that wait. Each has the room that the frames around it leave. -/
def waitingWork (I : Interpreter σ) : List Waiting → Nat
  | [] => 0
  | first :: others => I.suspendedWork (I.limits.depth - others.length) first + I.waitingWork others

/-- The work left to a machine. -/
def work (I : Interpreter σ) (x : State σ) : Nat :=
  I.taskWork (I.limits.depth - x.depth) x.task + I.waitingWork x.waiting

variable {I : Interpreter σ} {c : Cursor} {token word : Token} {others : List Waiting}
  {s : Session σ} {room index : Nat}

theorem passCount_le_mostPasses (h : word ∈ I.tokens) : passCount word ≤ I.mostPasses := by
  have hle : ∀ words : List Token, word ∈ words →
      passCount word ≤ (words.map passCount).foldr max 0 := by
    intro words hword
    induction words with
    | nil => cases hword
    | cons first words ih =>
        rw [List.map_cons, List.foldr_cons]
        rcases List.mem_cons.mp hword with rfl | hlater
        · exact Nat.le_max_left _ _
        · exact Nat.le_trans (ih hlater) (Nat.le_max_right _ _)
  exact hle I.tokens.toList h.val

theorem frameWork_le {later : Nat} (h : index ≤ later) :
    I.frameWork room later ≤ I.frameWork room index := by
  have hleft : I.tokens.size - later ≤ I.tokens.size - index := Nat.sub_le_sub_left h _
  exact Nat.add_le_add_right (Nat.mul_le_mul_right _ hleft) 2

/-- A token under the cursor is work by itself. -/
theorem frameWork_of_lt (h : index < I.tokens.size) :
    I.frameWork room index = I.frameWork room (index + 1) + I.tokenWork room := by
  have hleft : I.tokens.size - index = (I.tokens.size - (index + 1)) + 1 := by omega
  unfold frameWork
  rw [hleft, Nat.succ_mul]
  omega

/-- A frame that is opened takes less than it was reckoned at outside. -/
theorem frameWork_lt_passWork (I : Interpreter σ) (room index : Nat) :
    I.frameWork room index < I.passWork (room + 1) := by
  have hall : I.frameWork room index ≤ I.frameWork room 0 := frameWork_le (Nat.zero_le index)
  have hpass : I.passWork (room + 1) = I.frameWork room 0 + 1 := rfl
  omega

theorem passWork_le_tokenWork (I : Interpreter σ) (room : Nat) :
    I.passWork room ≤ I.tokenWork room := by
  have hmul : 1 * I.passWork room ≤ (I.mostPasses + 1) * I.passWork room :=
    Nat.mul_le_mul_right _ (Nat.le_add_left 1 _)
  unfold tokenWork
  omega

/-- A loop takes less than its keyword was reckoned at. -/
theorem loopWork_lt_frameWork (h : index < I.tokens.size) (hword : word ∈ I.tokens) :
    I.loopWork room index (passCount word) < I.frameWork room index := by
  have hmul : passCount word * I.passWork room ≤ (I.mostPasses + 1) * I.passWork room :=
    Nat.mul_le_mul_right _ (Nat.le_succ_of_le (passCount_le_mostPasses hword))
  rw [frameWork_of_lt h]
  unfold loopWork tokenWork
  omega

theorem mem_of_opened?_eq_loop (h : I.opened? c token s = some (.loop word)) :
    word ∈ I.tokens := by
  unfold opened? at h
  split at h
  · cases h
  · split at h
    · cases hfind : s.procedures.find? token.text <;> simp [hfind] at h
    · split at h
      · rename_i found hfound
        split at h
        · cases h
          exact Array.mem_of_getElem? hfound
        · cases h
      · cases h
    · cases h

/-- Opening a frame leaves less work than `bound` if what waits for it and the frame itself together
are reckoned at no more, and so does going on without it. -/
theorem work_entering_lt {bound start : Nat} {frame : Frame} {waiting : Waiting} {refused : Cursor}
    (hopened : I.suspendedWork (I.limits.depth - others.length) waiting +
      I.passWork (I.limits.depth - others.length) ≤ bound)
    (hrefused : I.frameWork (I.limits.depth - others.length) refused.index < bound) :
    I.work (I.entering token frame start waiting refused others s) <
      bound + I.waitingWork others := by
  unfold entering
  by_cases hroom : others.length < I.limits.depth
  · rw [if_pos hroom]
    have hless : I.limits.depth - others.length = (I.limits.depth - (others.length + 1)) + 1 := by
      omega
    have hframe := frameWork_lt_passWork I (I.limits.depth - (others.length + 1)) start
    rw [← hless] at hframe
    change I.frameWork (I.limits.depth - (others.length + 1)) start +
      (I.suspendedWork (I.limits.depth - others.length) waiting + I.waitingWork others) < _
    omega
  · rw [if_neg hroom]
    exact Nat.add_lt_add_right hrefused _

/-- Running the token under a cursor leaves less work than there was. -/
theorem work_reading_lt (htoken : I.tokens[c.index]? = some token) :
    I.work (I.reading c token others s) < I.work ⟨.read c, others, s⟩ := by
  have hlt : c.index < I.tokens.size := (Array.getElem?_eq_some_iff.mp htoken).1
  let room := I.limits.depth - others.length
  have hhere : I.frameWork room c.index = I.frameWork room (c.index + 1) + I.tokenWork room :=
    frameWork_of_lt hlt
  have hpositive : 2 ≤ I.tokenWork room := Nat.le_add_left 2 _
  change _ < I.frameWork room c.index + I.waitingWork others
  unfold reading
  cases hopened : I.opened? c token s with
  | none =>
      cases I.turn none c.frame c.index token c.defining s with
      | halt t =>
          have hleave : 1 < I.frameWork room c.index := Nat.le_add_left 2 _
          exact Nat.add_lt_add_right hleave _
      | advance consumed defining t =>
          have hlater : I.frameWork room (c.index + 1 + consumed) ≤
              I.frameWork room (c.index + 1) := frameWork_le (Nat.le_add_right _ _)
          have hless : I.frameWork room (c.index + 1 + consumed) < I.frameWork room c.index := by
            omega
          exact Nat.add_lt_add_right hless _
  | some opened =>
      cases opened with
      | call body =>
          apply work_entering_lt
          · change I.frameWork room (c.index + 1) + I.passWork room ≤ _
            rw [hhere]
            exact Nat.add_le_add_left (passWork_le_tokenWork I room) _
          · change I.frameWork room (c.index + 1) < _
            omega
      | loop word =>
          have hloop : I.loopWork room c.index (passCount word) < I.frameWork room c.index :=
            loopWork_lt_frameWork hlt (mem_of_opened?_eq_loop hopened)
          exact Nat.add_lt_add_right hloop _

/-- Every step leaves less work. -/
theorem work_lt_of_next {x y : State σ} (h : I.next x = some y) : I.work y < I.work x := by
  obtain ⟨task, waiting, s⟩ := x
  let room := I.limits.depth - waiting.length
  cases task with
  | rest => cases h
  | read c =>
      have hleave : I.taskWork room (.leave I.tokens.size) < I.taskWork room (.read c) :=
        Nat.le_add_left 2 _
      cases htoken : I.tokens[c.index]? with
      | none =>
          simp only [next, htoken, Option.some.injEq] at h
          subst h
          exact Nat.add_lt_add_right hleave _
      | some token =>
          cases hexhausted : I.exhausted s with
          | true =>
              simp only [next, htoken, hexhausted, if_true, Option.some.injEq] at h
              subst h
              exact Nat.add_lt_add_right hleave _
          | false =>
              simp only [next, htoken, hexhausted, Bool.false_eq_true, if_false,
                Option.some.injEq] at h
              subst h
              exact work_reading_lt htoken
  | pass c left last =>
      -- Wherever the frame goes on after the loop, it is past the keyword.
      have hpast (consumed : Nat) :
          I.frameWork room (c.past consumed).index < I.loopWork room c.index left := by
        have hlater : I.frameWork room (c.past consumed).index ≤ I.frameWork room (c.index + 1) :=
          frameWork_le (Nat.le_add_right _ _)
        unfold loopWork
        omega
      cases left with
      | zero =>
          cases h
          exact Nat.add_lt_add_right (hpast _) _
      | succ left =>
          cases hexhausted : I.exhausted s with
          | true =>
              simp only [next, hexhausted, if_true, Option.some.injEq] at h
              subst h
              exact Nat.add_lt_add_right (hpast _) _
          | false =>
              simp only [next, hexhausted, Bool.false_eq_true, if_false, Option.some.injEq] at h
              subst h
              have hpass : I.loopWork room c.index left + I.passWork room =
                  I.loopWork room c.index (left + 1) := by
                unfold loopWork
                rw [Nat.succ_mul]
                omega
              exact work_entering_lt (Nat.le_of_eq hpass) (hpast _)
  | leave stop =>
      cases waiting with
      | nil =>
          cases h
          exact Nat.zero_lt_one
      | cons first others =>
          have hfirst : I.suspendedWork (I.limits.depth - others.length) first +
              I.waitingWork others < 1 + I.waitingWork (first :: others) :=
            Nat.lt_add_of_pos_left Nat.zero_lt_one
          cases first with
          | call c =>
              cases h
              exact hfirst
          | loop c left =>
              cases h
              exact hfirst

/-- The state after a number of steps, unless the machine comes to rest before. -/
def after (I : Interpreter σ) : Nat → State σ → Option (State σ)
  | 0, x => some x
  | n + 1, x => (I.next x).bind (I.after n)

/-- What a machine comes to, it comes to after no more steps than the work it has done. -/
theorem exists_after_of_steps {x y : State σ} (h : I.Steps x y) :
    ∃ n, n + I.work y ≤ I.work x ∧ I.after n x = some y := by
  induction h using Relation.ReflTransGen.head_induction_on with
  | refl => exact ⟨0, Nat.le_of_eq (Nat.zero_add _), rfl⟩
  | head hnext _ ih =>
      obtain ⟨n, hwork, hafter⟩ := ih
      have hless := work_lt_of_next hnext
      refine ⟨n + 1, by omega, ?_⟩
      rw [after, hnext, Option.bind_some, hafter]

end Interpreter

end TurtleScript
