import Mathlib.Logic.Relation
import TurtleScript.Proofs.Interpreter.Agreement

/-!
The interpreter one step at a time. A run is defined by recursion and shows only what it ends with;
the machine here keeps the frames that are open as a list, so that every state on the way can be
spoken of. A machine rests between runs, and any frame may then be run from any index.

The main statement is that the machine comes to rest just as the run does: it stops at the same
index and with the same session. What every step keeps therefore holds of every state that can be
reached at all, during a run or between runs.
-/

namespace TurtleScript

universe u

namespace Machine

/-- A frame and where its cursor stands. -/
structure Cursor where
  frame : Frame
  index : Nat
  defining : Bool
  deriving DecidableEq, Repr

/-- A cursor that has moved on past its token and the ones consumed after it. -/
def Cursor.past (c : Cursor) (consumed : Nat) : Cursor :=
  ⟨c.frame, c.index + 1 + consumed, false⟩

/-- A frame that waits for one opened inside it. -/
inductive Waiting where
  /-- For a procedure that is called where the cursor stands. -/
  | call (cursor : Cursor)
  /-- For a pass of the loop where the cursor stands, with so many passes left after it. -/
  | loop (cursor : Cursor) (left : Nat)
  deriving DecidableEq, Repr

/-- What the machine is about to do. -/
inductive Task where
  /-- Nothing: no frame is open. -/
  | rest
  /-- Run the token under a cursor. -/
  | read (cursor : Cursor)
  /-- Begin one of the passes that are left of a loop, or go on after its last token. -/
  | pass (cursor : Cursor) (left last : Nat)
  /-- Give the index at which a frame stopped to the frame that waits for it. -/
  | leave (stop : Nat)
  deriving DecidableEq, Repr

/-- The frames that wait are listed with the innermost first. -/
structure State (σ : Type u) where
  task : Task
  waiting : List Waiting
  session : Session σ

/-- How many frames are open inside the first one. -/
def State.depth {σ : Type u} (x : State σ) : Nat :=
  x.waiting.length

/-- A machine at rest. -/
def State.atRest {σ : Type u} (s : Session σ) : State σ :=
  ⟨.rest, [], s⟩

/-- What a token opens: a procedure body, or a loop with the word that counts its passes. -/
inductive Opened where
  | call (body : Nat)
  | loop (word : Token)
  deriving DecidableEq, Repr

end Machine

namespace Interpreter

open Machine

variable {σ : Type u}

/-- The passes that a word asks for. -/
def passCount (word : Token) : Nat :=
  ((Integer.leading? word.text).getD 0).toNat

/-- What the token under a cursor opens, if anything. -/
def opened? (I : Interpreter σ) (c : Cursor) (token : Token) (s : Session σ) : Option Opened :=
  if c.defining then none
  else
    match token.role with
    | .name => (s.procedures.find? token.text).map .call
    | .keyword .repetition =>
        match I.tokens[c.index + 1]? with
        | some word => if I.tokens[c.index + 2]? = some .opening then some (.loop word) else none
        | none => none
    | _ => none

/-- Opens a frame inside the others, or goes on with `refused` if it would lie too deep. -/
def entering (I : Interpreter σ) (token : Token) (frame : Frame) (start : Nat) (waiting : Waiting)
    (refused : Cursor) (others : List Waiting) (s : Session σ) : State σ :=
  if others.length < I.limits.depth then ⟨.read ⟨frame, start, false⟩, waiting :: others, s⟩
  else ⟨.read refused, others, s.skip (.depthLimit token.text)⟩

/-- The session that a turn leaves behind. -/
def Turn.session : Turn σ → Session σ
  | .halt s => s
  | .advance _ _ s => s

/-- What comes after a turn that opened nothing. -/
def following (c : Cursor) (others : List Waiting) : Turn σ → State σ
  | .halt s => ⟨.leave c.index, others, s⟩
  | .advance consumed defining s =>
      ⟨.read ⟨c.frame, c.index + 1 + consumed, defining⟩, others, s⟩

/-- Runs the token under a cursor. -/
def reading (I : Interpreter σ) (c : Cursor) (token : Token) (others : List Waiting)
    (s : Session σ) : State σ :=
  match I.opened? c token s with
  | some (.call body) => I.entering token .procedure body (.call c) (c.past 0) others s.tick
  | some (.loop word) =>
      ⟨.pass c (passCount word) (Bracket.close I.tokens (c.index + 3)), others,
        counted word s.tick⟩
  | none => following c others (I.turn none c.frame c.index token c.defining s)

/-- The state that follows, if the machine is not at rest. -/
def next (I : Interpreter σ) (x : State σ) : Option (State σ) :=
  match x.task with
  | .rest => none
  | .read c =>
      match I.tokens[c.index]? with
      | none => some ⟨.leave I.tokens.size, x.waiting, x.session⟩
      | some token =>
          if I.exhausted x.session then some ⟨.leave I.tokens.size, x.waiting, x.session.cut⟩
          else some (I.reading c token x.waiting x.session)
  | .pass c 0 last => some ⟨.read (c.past (last - c.index)), x.waiting, x.session⟩
  | .pass c (left + 1) _ =>
      if I.exhausted x.session then
        some ⟨.read (c.past (I.tokens.size - c.index)), x.waiting, x.session.cut⟩
      else
        some (I.entering .opening .loop (c.index + 3) (.loop c left)
          (c.past (Bracket.close I.tokens (c.index + 3) - c.index)) x.waiting x.session.tick)
  | .leave stop =>
      match x.waiting with
      | [] => some (.atRest x.session)
      | .call c :: others => some ⟨.read (c.past 0), others, x.session⟩
      | .loop c left :: others => some ⟨.pass c left stop, others, x.session⟩

/-- The machine takes a step, or a frame is run from an index while it is at rest. -/
inductive Move (I : Interpreter σ) : State σ → State σ → Prop
  | step {x y : State σ} (h : I.next x = some y) : Move I x y
  | call (frame : Frame) (start : Nat) (s : Session σ) :
      Move I (.atRest s) ⟨.read ⟨frame, start, false⟩, [], s⟩

/-- One state comes after another, or is the same. -/
def Leads (I : Interpreter σ) : State σ → State σ → Prop :=
  Relation.ReflTransGen I.Move

/-- One state comes after another by steps alone, while no new frame is run from rest. -/
def Steps (I : Interpreter σ) : State σ → State σ → Prop :=
  Relation.ReflTransGen fun x y => I.next x = some y

/-- States that a machine comes to from a new session, during or after any calls. -/
def Reached (I : Interpreter σ) (x : State σ) : Prop :=
  ∃ turtle, I.Leads (.atRest (.new turtle)) x

variable {I : Interpreter σ} {c : Cursor} {token : Token} {others : List Waiting}
  {s : Session σ} {room : Nat}

theorem session_following (t : Turn σ) : (following c others t).session = t.session := by
  cases t <;> rfl

theorem steps_of_next {x y : State σ} (h : I.next x = some y) : I.Steps x y :=
  .single h

theorem Steps.leads {x y : State σ} (h : I.Steps x y) : I.Leads x y := by
  induction h with
  | refl => exact .refl
  | tail _ hnext ih => exact ih.tail (.step hnext)

/-- Without a frame to open, it makes no difference to a turn which frames may be opened. -/
theorem turn_of_opened?_eq_none (inner : Option (Runner σ)) (h : I.opened? c token s = none) :
    I.turn inner c.frame c.index token c.defining s =
      I.turn none c.frame c.index token c.defining s := by
  unfold turn
  cases hdefining : c.defining with
  | true =>
      by_cases hfinish : token.role = .keyword .finish
      · simp [hfinish, active]
      · simp [hfinish]
  | false =>
      simp only [opened?, hdefining, Bool.false_eq_true, if_false] at h
      simp only [Bool.false_and, Bool.false_eq_true, if_false]
      unfold active
      split
      · rfl
      · rfl
      · rfl
      · rfl
      · rename_i hrole
        simp only [hrole] at h
        cases hword : I.tokens[c.index + 1]? with
        | none => rw [repetition_of_none hword, repetition_of_none hword]
        | some word =>
            have hopening : I.tokens[c.index + 2]? ≠ some .opening := by
              intro hopening
              simp [hword, hopening] at h
            rw [repetition_of_no_body hword hopening, repetition_of_no_body hword hopening]
      · rfl
      · rfl
      · rename_i hrole
        have hfind : s.procedures.find? token.text = none := by
          simpa [hrole] using h
        simp [invoke, Session.tick, hfind]

/-- A call is a turn that consumes nothing and leaves behind what its frame does. -/
theorem turn_of_opened?_eq_call (inner : Option (Runner σ)) {body : Nat}
    (h : I.opened? c token s = some (.call body)) :
    I.turn inner c.frame c.index token c.defining s =
      .advance 0 false (enter inner token .procedure body s.tick).2 := by
  unfold opened? at h
  split at h
  · cases h
  · rename_i hdefining
    split at h
    · rename_i hrole
      have hfind : s.procedures.find? token.text = some body := by
        simpa [Option.map_eq_some_iff] using h
      simp [turn, hdefining, active, hrole, invoke, Session.tick, hfind]
    · split at h
      · split at h <;> cases h
      · cases h
    · cases h

/-- A loop is a turn that consumes what its passes leave behind them. -/
theorem turn_of_opened?_eq_loop (inner : Option (Runner σ)) {word : Token}
    (h : I.opened? c token s = some (.loop word)) :
    I.turn inner c.frame c.index token c.defining s =
      let result := I.passes inner (c.index + 3) (passCount word)
        (Bracket.close I.tokens (c.index + 3)) (counted word s.tick)
      .advance (result.1 - c.index) false result.2 := by
  unfold opened? at h
  split at h
  · cases h
  · rename_i hdefining
    split at h
    · cases hfind : s.procedures.find? token.text <;> simp [hfind] at h
    · rename_i hrole
      split at h
      · rename_i word' hword
        split at h
        · rename_i hopening
          cases h
          simp [turn, hdefining, active, hrole, repetition_of_body hword hopening, passCount]
        · cases h
      · cases h
    · cases h

/-- Frames opened from a level in which `room` more may be opened bring the machine to where they
stop. -/
def Descends (I : Interpreter σ) (room : Nat) : Prop :=
  ∀ frame start others s, others.length + room = I.limits.depth →
    I.Steps ⟨.read ⟨frame, start, false⟩, others, s⟩
      ⟨.leave (I.runWithin room frame start s).1, others, (I.runWithin room frame start s).2⟩

/-- Levels above the lowest one descend to the next one. -/
def DescendsBelow (I : Interpreter σ) (room : Nat) : Prop :=
  ∀ deeper, room = deeper + 1 → I.Descends deeper

/-- A frame that is called is run to its end, or refused, and the caller goes on. -/
theorem steps_call (hbelow : I.DescendsBelow room)
    (hroom : others.length + room = I.limits.depth) (token : Token) (body : Nat) :
    I.Steps (I.entering token .procedure body (.call c) (c.past 0) others s)
      ⟨.read (c.past 0), others, (enter (I.below room) token .procedure body s).2⟩ := by
  cases room with
  | zero =>
      have hfull : ¬ others.length < I.limits.depth := by omega
      rw [entering, if_neg hfull]
      exact .refl
  | succ deeper =>
      have hopen : others.length < I.limits.depth := by omega
      rw [entering, if_pos hopen]
      have hframe := hbelow deeper rfl .procedure body (.call c :: others) s
        (by rw [List.length_cons]; omega)
      exact hframe.trans (steps_of_next rfl)

/-- The passes of a loop are run one after the other, and the frame goes on after them. -/
theorem steps_passes (hbelow : I.DescendsBelow room)
    (hroom : others.length + room = I.limits.depth) (count last : Nat) :
    I.Steps ⟨.pass c count last, others, s⟩
      ⟨.read (c.past ((I.passes (I.below room) (c.index + 3) count last s).1 - c.index)), others,
        (I.passes (I.below room) (c.index + 3) count last s).2⟩ := by
  induction count generalizing last s with
  | zero => exact steps_of_next rfl
  | succ count ih =>
      cases hexhausted : I.exhausted s with
      | true =>
          rw [passes_of_exhausted hexhausted]
          apply steps_of_next
          simp [next, hexhausted]
      | false =>
          have hnext : I.next ⟨.pass c (count + 1) last, others, s⟩ =
              some (I.entering .opening .loop (c.index + 3) (.loop c count)
                (c.past (Bracket.close I.tokens (c.index + 3) - c.index)) others s.tick) := by
            simp [next, hexhausted]
          refine (steps_of_next hnext).trans ?_
          rw [passes_of_running hexhausted]
          cases room with
          | zero =>
              have hfull : ¬ others.length < I.limits.depth := by omega
              rw [entering, if_neg hfull]
              exact .refl
          | succ deeper =>
              -- One pass runs to where it stops and hands its stopping place to the loop.
              have hopen : others.length < I.limits.depth := by omega
              rw [entering, if_pos hopen]
              have hframe := hbelow deeper rfl .loop (c.index + 3) (.loop c count :: others) s.tick
                (by rw [List.length_cons]; omega)
              have hback : I.Steps
                  ⟨.leave (I.runWithin deeper .loop (c.index + 3) s.tick).1,
                    .loop c count :: others,
                    (I.runWithin deeper .loop (c.index + 3) s.tick).2⟩
                  ⟨.pass c count (I.runWithin deeper .loop (c.index + 3) s.tick).1, others,
                    (I.runWithin deeper .loop (c.index + 3) s.tick).2⟩ := steps_of_next rfl
              exact (hframe.trans hback).trans (ih _)

/-- A turn brings the machine to what follows it. -/
theorem steps_turn (hbelow : I.DescendsBelow room)
    (hroom : others.length + room = I.limits.depth) (htoken : I.tokens[c.index]? = some token)
    (hrunning : I.exhausted s = false) :
    I.Steps ⟨.read c, others, s⟩
      (following c others (I.turn (I.below room) c.frame c.index token c.defining s)) := by
  have hnext : I.next ⟨.read c, others, s⟩ = some (I.reading c token others s) := by
    simp [next, htoken, hrunning]
  refine (steps_of_next hnext).trans ?_
  unfold reading
  cases hopened : I.opened? c token s with
  | none => rw [turn_of_opened?_eq_none (I.below room) hopened]
  | some opened =>
      cases opened with
      | call body =>
          rw [turn_of_opened?_eq_call (I.below room) hopened]
          exact steps_call hbelow hroom token body
      | loop word =>
          rw [turn_of_opened?_eq_loop (I.below room) hopened]
          exact steps_passes hbelow hroom _ _

/-- A frame brings the machine to where its walk stops. -/
theorem steps_walk (hbelow : I.DescendsBelow room)
    (hroom : others.length + room = I.limits.depth) :
    I.Steps ⟨.read c, others, s⟩
      ⟨.leave (I.walk (I.below room) c.frame c.index c.defining s).1, others,
        (I.walk (I.below room) c.frame c.index c.defining s).2⟩ := by
  induction hrest : I.tokens.size - c.index using Nat.strongRecOn generalizing c s with
  | ind rest ih =>
      cases htoken : I.tokens[c.index]? with
      | none =>
          have hsize : I.tokens.size ≤ c.index := Array.getElem?_eq_none_iff.mp htoken
          rw [walk_of_size_le hsize]
          apply steps_of_next
          simp [next, htoken]
      | some token =>
          obtain ⟨ts, hahead⟩ := ahead_cons_iff.mpr htoken
          have hlt := lt_size_of_ahead_cons hahead
          cases hexhausted : I.exhausted s with
          | true =>
              rw [walk_of_exhausted hlt hexhausted]
              apply steps_of_next
              simp [next, htoken, hexhausted]
          | false =>
              refine (steps_turn hbelow hroom htoken hexhausted).trans ?_
              rw [walk_of_ahead_cons hahead hexhausted]
              cases hturn : I.turn (I.below room) c.frame c.index token c.defining s with
              | halt t => exact .refl
              | advance consumed defining t =>
                  let next : Cursor := ⟨c.frame, c.index + 1 + consumed, defining⟩
                  have hsmaller : I.tokens.size - next.index < rest := by
                    change I.tokens.size - (c.index + 1 + consumed) < rest
                    omega
                  exact ih _ hsmaller (c := next) rfl

theorem descends (I : Interpreter σ) (room : Nat) : I.Descends room := by
  induction room with
  | zero =>
      intro frame start others s hroom
      have hbelow : I.DescendsBelow 0 := by
        intro deeper hdeeper
        cases hdeeper
      rw [runWithin_eq]
      exact steps_walk hbelow hroom
  | succ room ih =>
      intro frame start others s hroom
      have hbelow : I.DescendsBelow (room + 1) := by
        intro deeper hdeeper
        cases hdeeper
        exact ih
      rw [runWithin_eq]
      exact steps_walk hbelow hroom

/-- A run of a frame brings the machine to rest with the session of the run, after it has stopped
where the run does. -/
theorem leads_run (I : Interpreter σ) (frame : Frame) (start : Nat) (s : Session σ) :
    I.Leads (.atRest s) ⟨.leave (I.run frame start s).1, [], (I.run frame start s).2⟩ ∧
      I.Leads (.atRest s) (.atRest (I.run frame start s).2) := by
  have hrun : I.Leads (.atRest s) ⟨.leave (I.run frame start s).1, [], (I.run frame start s).2⟩ :=
    .head (.call frame start s)
      (I.descends I.limits.depth frame start [] s (Nat.zero_add _)).leads
  exact ⟨hrun, hrun.tail (.step rfl)⟩

/-- The session after frames have been run one after the other. -/
def afterCalls (I : Interpreter σ) (calls : List (Frame × Nat)) (s : Session σ) : Session σ :=
  calls.foldl (fun s call => (I.run call.1 call.2 s).2) s

theorem leads_afterCalls (I : Interpreter σ) (calls : List (Frame × Nat)) (s : Session σ) :
    I.Leads (.atRest s) (.atRest (I.afterCalls calls s)) := by
  induction calls generalizing s with
  | nil => exact .refl
  | cons call calls ih => exact (I.leads_run call.1 call.2 s).2.trans (ih _)

end Interpreter

namespace Clocked

open Machine Interpreter

variable {σ : Type u} {I : Interpreter σ} {P : Session σ → Prop}

/-- What every change to a session keeps, a turn keeps. -/
theorem Keeps.turn (h : I.clocked.Keeps P) (room : Nat) (frame : Frame) {index : Nat}
    {token : Token} (defining : Bool) {s : Session σ} (hs : P s)
    (htoken : I.tokens[index]? = some token) (hrunning : I.exhausted s = false) :
    P (I.turn (I.below room) frame index token defining s).session := by
  have hturn : TurnAgree (fun s t => s = t ∧ P s) (fun _ _ => False)
      (I.turn (I.clocked.below room) frame index token defining s)
      (I.turn (I.clocked.below room) frame index token defining s) :=
    h.agreement.turn (h.agreement.nested room) htoken ⟨rfl, hs⟩ hrunning
  rw [I.clocked_below] at hturn
  cases hresult : I.turn (I.below room) frame index token defining s with
  | halt t =>
      rw [hresult] at hturn
      exact hturn.2
  | advance consumed defining' t =>
      rw [hresult] at hturn
      rcases hturn with ⟨_, _, _, ht⟩ | hparted
      · exact ht
      · exact hparted.elim

theorem Keeps.entering (h : I.clocked.Keeps P) {s : Session σ} (hs : P s) (token : Token)
    (frame : Frame) (start : Nat) (waiting : Waiting) (refused : Cursor) (others : List Waiting) :
    P (I.entering token frame start waiting refused others s).session := by
  unfold Interpreter.entering
  split
  · exact hs
  · exact h.skip _ hs

/-- What every change to a session keeps, every step of the machine keeps. -/
theorem Keeps.next (h : I.clocked.Keeps P) {x y : State σ} (hx : P x.session)
    (hnext : I.next x = some y) : P y.session := by
  obtain ⟨task, waiting, s⟩ := x
  change P s at hx
  cases task with
  | rest => cases hnext
  | read c =>
      cases htoken : I.tokens[c.index]? with
      | none =>
          simp only [Interpreter.next, htoken, Option.some.injEq] at hnext
          subst hnext
          exact hx
      | some token =>
          cases hexhausted : I.exhausted s with
          | true =>
              simp only [Interpreter.next, htoken, hexhausted, if_true, Option.some.injEq] at hnext
              subst hnext
              exact h.cut hx hexhausted
          | false =>
              simp only [Interpreter.next, htoken, hexhausted, Bool.false_eq_true, if_false,
                Option.some.injEq] at hnext
              subst hnext
              unfold reading
              split
              · exact h.entering (h.tick hx hexhausted) _ _ _ _ _ _
              · rename_i word _
                have htick := h.tick hx hexhausted
                change P (counted word s.tick)
                unfold counted
                split
                · exact h.skip _ htick
                · exact htick
              · rw [session_following]
                exact h.turn 0 c.frame c.defining hx htoken hexhausted
  | pass c left last =>
      cases left with
      | zero =>
          cases hnext
          exact hx
      | succ left =>
          cases hexhausted : I.exhausted s with
          | true =>
              simp only [Interpreter.next, hexhausted, if_true, Option.some.injEq] at hnext
              subst hnext
              exact h.cut hx hexhausted
          | false =>
              simp only [Interpreter.next, hexhausted, Bool.false_eq_true, if_false,
                Option.some.injEq] at hnext
              subst hnext
              exact h.entering (h.tick hx hexhausted) _ _ _ _ _ _
  | leave stop =>
      cases waiting with
      | nil =>
          cases hnext
          exact hx
      | cons first others =>
          cases first with
          | call c =>
              cases hnext
              exact hx
          | loop c left =>
              cases hnext
              exact hx

/-- What every change to a session keeps holds in every later state. -/
theorem Keeps.leads (h : I.clocked.Keeps P) {x y : State σ} (hleads : I.Leads x y)
    (hx : P x.session) : P y.session := by
  induction hleads with
  | refl => exact hx
  | tail _ hmove ih =>
      cases hmove with
      | step hnext => exact h.next ih hnext
      | call frame start s => exact ih

/-- What new sessions have and every change keeps holds in every state that can be reached. -/
theorem Keeps.reached (h : I.clocked.Keeps P) (hnew : ∀ turtle, P (.new turtle)) {x : State σ}
    (hreached : I.Reached x) : P x.session := by
  obtain ⟨turtle, hleads⟩ := hreached
  exact h.leads hleads (hnew turtle)

end Clocked

end TurtleScript
