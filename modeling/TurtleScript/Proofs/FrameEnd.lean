import TurtleScript.Proofs.Interpreter.DepthCounter
import TurtleScript.Proofs.Interpreter.DirectReads
import TurtleScript.Proofs.Interpreter.Work
import TurtleScript.Proofs.LoopEnd

/-!
Every frame ends, and it ends at a place that is allowed to end it. That it ends is a matter of the
work it has left, which no step leaves as it is. It ends under an `end`, under the closing bracket of
a pass, or at the end of the tokens, because no other token halts a cursor. A cursor never moves
back, so a frame does not end before its start, and a loop does not end before its body.

None of this depends on the session. It holds whether a run is cut short or not, and whatever
procedures have been defined, those that call themselves included.
-/

namespace TurtleScript

universe u

namespace FrameEnd

open Interpreter (Runner Turn enter passCount counted)
open LoopEnd (repeatAt)
open Machine
open StoppingPlace (callAt)

variable {σ : Type u} {I : Interpreter σ} {inner : Option (Runner σ)} {frame : Frame}
  {index : Nat} {token : Token} {defining : Bool} {s t : Session σ}

/-- Only `end` halts the cursor of a procedure or a pass, and a closing bracket that of a pass. -/
theorem role_of_halt (h : I.turn inner frame index token defining s = .halt t) :
    token.role = .keyword .finish ∧ frame ≠ .top ∨ token.role = .closing ∧ frame = .loop := by
  unfold Interpreter.turn at h
  split at h
  · cases h
  · unfold Interpreter.active at h
    cases hrole : token.role with
    | opening => simp [hrole] at h
    | name => simp [hrole] at h
    | closing =>
        by_cases hframe : frame = .loop
        · exact Or.inr ⟨rfl, hframe⟩
        · simp [hrole, hframe] at h
    | keyword word =>
        cases word with
        | define => simp [hrole] at h
        | repetition => simp [hrole] at h
        | save => simp [hrole] at h
        | background => simp [hrole] at h
        | finish =>
            have hframe : frame ≠ .top := by
              rintro rfl
              simp [hrole, Frame.isNested] at h
            exact Or.inl ⟨rfl, hframe⟩

/-- An index at which a frame may end. -/
structure Ends (tokens : Array Token) (frame : Frame) (stop : Nat) : Prop where
  le_size : stop ≤ tokens.size
  token : stop < tokens.size →
    tokens[stop]? = some Keyword.finish.token ∧ (frame = .procedure ∨ frame = .loop) ∨
      tokens[stop]? = some .closing ∧ frame = .loop

theorem ends_size (tokens : Array Token) (frame : Frame) : Ends tokens frame tokens.size :=
  ⟨Nat.le_refl _, fun hlt => absurd hlt (Nat.lt_irrefl _)⟩

theorem nested_of_ne_top (h : frame ≠ .top) : frame = .procedure ∨ frame = .loop := by
  cases frame with
  | top => exact absurd rfl h
  | procedure => exact Or.inl rfl
  | loop => exact Or.inr rfl

/-- A walk ends where its frame may end. -/
theorem ends_walk (I : Interpreter σ) (inner : Option (Runner σ)) (frame : Frame) (index : Nat)
    (defining : Bool) (s : Session σ) :
    Ends I.tokens frame (I.walk inner frame index defining s).1 := by
  fun_induction Interpreter.walk I inner frame index defining s with
  | case1 index defining s hlt hexhausted => exact ends_size I.tokens frame
  | case2 index defining s hlt hrunning next hturn =>
      refine ⟨Nat.le_of_lt hlt, fun _ => ?_⟩
      rw [Array.getElem?_eq_getElem hlt]
      rcases role_of_halt hturn with ⟨hrole, hframe⟩ | ⟨hrole, hframe⟩
      · rw [Token.role_eq_keyword_iff.mp hrole]
        exact Or.inl ⟨rfl, nested_of_ne_top hframe⟩
      · rw [Token.role_eq_closing_iff.mp hrole]
        exact Or.inr ⟨rfl, hframe⟩
  | case3 index defining s hlt hrunning consumed defining' next hturn ih => exact ih
  | case4 index defining s hlt => exact ends_size I.tokens frame

/-- No pass over a body ends before the body, so neither do all of them. -/
theorem le_passes {room body count last : Nat} (hbody : body ≤ I.tokens.size) (hlast : body ≤ last) :
    body ≤ (I.passes (I.below room) body count last s).1 := by
  induction count generalizing last s with
  | zero => exact hlast
  | succ count ih =>
      cases hexhausted : I.exhausted s with
      | true =>
          rw [Interpreter.passes_of_exhausted hexhausted]
          exact hbody
      | false =>
          rw [Interpreter.passes_of_running hexhausted]
          cases room with
          | zero => exact Bracket.le_closeFrom hbody
          | succ room =>
              have hpass := I.le_walk (I.below room) .loop body false s.tick
              rw [Nat.min_eq_left hbody, ← Interpreter.runWithin_eq] at hpass
              exact ih hpass

/-- A loop is more than its keyword. -/
theorem repetition_pos (I : Interpreter σ) (room index : Nat) (s : Session σ) :
    0 < (I.repetition (I.below room) index s).1 := by
  cases hword : I.tokens[index + 1]? with
  | none =>
      rw [Interpreter.repetition_of_none hword]
      exact Nat.one_pos
  | some word =>
      by_cases hopening : I.tokens[index + 2]? = some .opening
      · have hbody : index + 3 ≤ I.tokens.size := (Array.getElem?_eq_some_iff.mp hopening).1
        have hlast : index + 3 ≤ (I.passes (I.below room) (index + 3) (passCount word)
            (Bracket.close I.tokens (index + 3)) (counted word s)).1 :=
          le_passes hbody (Bracket.le_closeFrom hbody)
        have hlater : index < (I.passes (I.below room) (index + 3) (passCount word)
            (Bracket.close I.tokens (index + 3)) (counted word s)).1 :=
          Nat.lt_of_lt_of_le (Nat.lt_add_of_pos_right (by decide)) hlast
        rw [Interpreter.repetition_of_body hword hopening]
        exact Nat.sub_pos_of_lt hlater
      · rw [Interpreter.repetition_of_no_body hword hopening]
        exact Nat.one_pos

/-- A frame that is run inside those that wait in a state comes to its end after no more steps than
there is work. -/
theorem exists_after_call {x : State σ} (hdepth : x.depth ≤ I.limits.depth) (frame : Frame)
    (start : Nat) :
    let called : State σ := ⟨.read ⟨frame, start, false⟩, x.waiting, x.session⟩
    let result := callAt I x.depth frame start x.session
    ∃ n ≤ I.work called, I.after n called = some ⟨.leave result.1, x.waiting, result.2⟩ := by
  intro called result
  have hroom : x.waiting.length + (I.limits.depth - x.depth) = I.limits.depth :=
    Nat.add_sub_cancel' hdepth
  have hsteps := I.descends _ frame start x.waiting x.session hroom
  obtain ⟨n, hwork, hafter⟩ := Interpreter.exists_after_of_steps hsteps
  exact ⟨n, Nat.le_of_add_right_le hwork, hafter⟩

/-- Every frame ends at a legitimate place, in every state that is reached, from every start. Each
step of the machine lowers a measure made of the room for frames, the tokens ahead and the passes
left, so a frame that is run comes to its end. It ends no earlier than it starts and no later than
the tokens do; before their end, only under an `end` if it is a procedure or a pass, or under a
closing bracket if it is a pass; so the script itself ends with the tokens. No token is read out of
bounds on the way, and a loop ends behind its keyword. -/
theorem frame_ends (I : Interpreter σ) {x : State σ} (hx : I.Reached x) (frame : Frame)
    (start : Nat) :
    let called : State σ := ⟨.read ⟨frame, start, false⟩, x.waiting, x.session⟩
    let result := callAt I x.depth frame start x.session
    (∀ y z, I.next y = some z → I.work z < I.work y) ∧
      (∃ n ≤ I.work called, I.after n called = some ⟨.leave result.1, x.waiting, result.2⟩) ∧
      min start I.tokens.size ≤ result.1 ∧ result.1 ≤ I.tokens.size ∧
      (result.1 < I.tokens.size →
        I.tokens[result.1]? = some Keyword.finish.token ∧ (frame = .procedure ∨ frame = .loop) ∨
          I.tokens[result.1]? = some .closing ∧ frame = .loop) ∧
      (frame = .top → result.1 = I.tokens.size) ∧
      (∀ y, I.directNext y = .ok (I.next y)) ∧
      ∀ index, index < (repeatAt I x.depth index x.session).1 := by
  intro called result
  obtain ⟨turtle, hleads⟩ := hx
  have hdepth : x.depth ≤ I.limits.depth := ((I.bounded_atRest _).leads hleads).depth_le
  have hresult : result =
      I.walk (I.below (I.limits.depth - x.depth)) frame start false x.session :=
    Interpreter.runWithin_eq _ _
  have hends := ends_walk I (I.below (I.limits.depth - x.depth)) frame start false x.session
  have hstart := I.le_walk (I.below (I.limits.depth - x.depth)) frame start false x.session
  rw [← hresult] at hends hstart
  refine ⟨fun y z => Interpreter.work_lt_of_next, exists_after_call hdepth frame start, hstart,
    hends.le_size, hends.token, ?_, I.directNext_eq_ok, ?_⟩
  · rintro rfl
    rw [hresult, Interpreter.walk_top]
  · intro index
    exact Nat.lt_add_of_pos_right (repetition_pos I _ index x.session)

/-- A procedure that calls itself inside a loop, without a limit on steps. -/
def spiral : Interpreter (Array Command) where
  tokens := #[⟨"to"⟩, ⟨"p"⟩, ⟨"repeat"⟩, ⟨"2"⟩, .opening, ⟨"pu"⟩, ⟨"p"⟩, .closing, ⟨"end"⟩, ⟨"p"⟩]
  table := .standard
  limits := ⟨3, none⟩
  obey := Array.push

/-- The procedure is run again after the whole script. -/
theorem frame_ends_spiral :
    let s := spiral.afterCalls [(.top, 0)] (.new #[])
    spiral.Reached (.atRest s) ∧ s.procedures.find? "p" = some 2 ∧
      (callAt spiral 0 .procedure 2 s).1 = 8 ∧ spiral.tokens[8]? = some Keyword.finish.token ∧
      (∃ n ≤ spiral.work ⟨.read ⟨.procedure, 2, false⟩, [], s⟩,
        spiral.after n ⟨.read ⟨.procedure, 2, false⟩, [], s⟩ =
          some ⟨.leave 8, [], (callAt spiral 0 .procedure 2 s).2⟩) ∧
      2 < (repeatAt spiral 0 2 s).1 := by
  intro s
  have hreached : spiral.Reached (.atRest s) := ⟨#[], spiral.leads_afterCalls [(.top, 0)] (.new #[])⟩
  have hstop : (callAt spiral 0 .procedure 2 s).1 = 8 := by decide +kernel
  obtain ⟨-, hsteps, -, -, hend, -, -, hloop⟩ := frame_ends spiral hreached .procedure 2
  have hsteps' : ∃ n ≤ spiral.work ⟨.read ⟨.procedure, 2, false⟩, [], s⟩,
      spiral.after n ⟨.read ⟨.procedure, 2, false⟩, [], s⟩ =
        some ⟨.leave (callAt spiral 0 .procedure 2 s).1, [], (callAt spiral 0 .procedure 2 s).2⟩ :=
    hsteps
  rw [hstop] at hsteps'
  exact ⟨hreached, by decide +kernel, hstop, rfl, hsteps', hloop 2⟩

end FrameEnd

end TurtleScript
