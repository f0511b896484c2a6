import TurtleScript.Proofs.Interpreter.Machine
import TurtleScript.Proofs.Registry

/-!
Where a frame stops is written in the text. `stop` finds the place from the tokens, the table and
the room for further frames alone: it knows no session, runs no procedure, and passes over a loop
body once at most. Every run that is not cut short stops there, whatever was defined before it.

A session could only matter through the procedures it has, since a name may be a procedure in one
session and nothing in another. But no procedure has the name of a primitive, so such a name has no
input in either session, and the cursor moves on alike. The passes of a loop are runs of one body,
so they all stop at one place.
-/

namespace TurtleScript

universe u v

namespace StoppingPlace

open Interpreter (Turn Runner enter passCount counted)
open Registry (Sound keeps_sound sound_of_reached)

/-- The last token of the loop at an index. Its body is passed over at most once to find it; `inner`
tells where bodies stop, if there is room for them. -/
def loopEnd (tokens : Array Token) (inner : Option (Nat → Nat)) (index : Nat)
    (word : Token) : Nat :=
  match passCount word, inner with
  | _ + 1, some stop => stop (index + 3)
  | _, _ => Bracket.close tokens (index + 3)

/-- How many tokens after the keyword at an index belong to its loop. -/
def loopInput (tokens : Array Token) (inner : Option (Nat → Nat)) (index : Nat) : Nat :=
  match tokens[index + 1]? with
  | some word =>
      if tokens[index + 2]? = some .opening then loopEnd tokens inner index word - index else 1
  | none => 1

/-- How many tokens after the name at an index are its input. Only primitives have any. -/
def nameInput (tokens : Array Token) (table : CommandTable) (index : Nat) (name : String) : Nat :=
  match table.find? name, tokens[index + 1]? with
  | some (.numeric _), some argument => if (Number.finite? argument.text).isSome then 1 else 0
  | _, _ => 0

/-- How the cursor moves on from a token: how many tokens are consumed after it, and whether the
tokens from there on are part of a definition. It does not if the token ends the frame. -/
def move (tokens : Array Token) (table : CommandTable) (inner : Option (Nat → Nat)) (frame : Frame)
    (index : Nat) (token : Token) (defining : Bool) : Option (Nat × Bool) :=
  if defining && token.role != .keyword .finish then some (0, true)
  else
    match token.role with
    | .keyword .finish => if frame.isNested then none else some (0, false)
    | .keyword .define => some (if index + 2 < tokens.size then 1 else 0, true)
    | .keyword .save => some (0, false)
    | .keyword .background => some (if index + 1 < tokens.size then 1 else 0, false)
    | .keyword .repetition => some (loopInput tokens inner index, false)
    | .closing => if frame = .loop then none else some (0, false)
    | .opening => some (0, false)
    | .name => some (nameInput tokens table index token.text, false)

/-- Where the cursor stops from an index on. -/
def stopFrom (tokens : Array Token) (table : CommandTable) (inner : Option (Nat → Nat))
    (frame : Frame) (index : Nat) (defining : Bool) : Nat :=
  if h : index < tokens.size then
    match move tokens table inner frame index tokens[index] defining with
    | none => index
    | some (consumed, defining) =>
        stopFrom tokens table inner frame (index + 1 + consumed) defining
  else tokens.size
termination_by tokens.size - index

/-- Where loop bodies stop that are opened from a frame in which `room` more may be opened. -/
def bodyStop (tokens : Array Token) (table : CommandTable) : (room : Nat) → Option (Nat → Nat)
  | 0 => none
  | room + 1 => some fun start =>
      stopFrom tokens table (bodyStop tokens table room) .loop start false

/-- Where a frame stops in which `room` more frames may be opened. -/
def stop (tokens : Array Token) (table : CommandTable) (room : Nat) (frame : Frame)
    (start : Nat) : Nat :=
  stopFrom tokens table (bodyStop tokens table room) frame start false

variable {σ : Type u} {τ : Type v} {I : Interpreter σ} {room : Nat} {frame : Frame} {index : Nat}
  {token : Token} {defining : Bool} {s : Session σ}

theorem stopFrom_of_size_le {tokens : Array Token} {table : CommandTable}
    {inner : Option (Nat → Nat)} (h : tokens.size ≤ index) :
    stopFrom tokens table inner frame index defining = tokens.size := by
  rw [stopFrom, dif_neg (Nat.not_lt.mpr h)]

theorem stopFrom_of_lt {tokens : Array Token} {table : CommandTable}
    {inner : Option (Nat → Nat)} (h : index < tokens.size) :
    stopFrom tokens table inner frame index defining =
      match move tokens table inner frame index tokens[index] defining with
      | none => index
      | some (consumed, defining) =>
          stopFrom tokens table inner frame (index + 1 + consumed) defining := by
  rw [stopFrom, dif_pos h]

/-- How a turn moves the cursor. -/
def turnMove : Turn σ → Option (Nat × Bool)
  | .halt _ => none
  | .advance consumed defining _ => some (consumed, defining)

/-- A run that was cut short stays so. -/
theorem keeps_truncated {C : Clocked σ} : C.Keeps fun s => s.truncated = true where
  tick h _ := h
  give h _ _ := h
  skip _ h := h
  cut _ _ := rfl
  define h _ _ _ :=
    Session.define_elim (P := fun s => s.truncated = true) (fun _ => h) fun _ => h

/-- Loop bodies opened from a level stop where the text says, unless they are cut short. -/
def Steady (I : Interpreter σ) (room : Nat) : Prop :=
  ∀ deeper, room = deeper + 1 → ∀ start s, Sound I.tokens I.table s.procedures →
    (I.runWithin deeper .loop start s).2.truncated = false →
    (I.runWithin deeper .loop start s).1 = stop I.tokens I.table deeper .loop start

/-- The index at which each of the passes over a loop body stops. -/
def passStops (I : Interpreter σ) (inner : Option (Runner σ)) (body : Nat) :
    Nat → Session σ → List Nat
  | 0, _ => []
  | count + 1, s =>
      if I.exhausted s then []
      else
        match enter inner .opening .loop body s.tick with
        | (some stop, s) => stop :: passStops I inner body count s
        | (none, _) => []

/-- A pass that is not cut short stops where the text says, and leaves the other passes to be
run. -/
theorem passes_of_steady (hsteady : Steady I (room + 1)) {body count last : Nat}
    (hs : Sound I.tokens I.table s.procedures)
    (h : (I.passes (I.below (room + 1)) body (count + 1) last s).2.truncated = false) :
    ∃ t, Sound I.tokens I.table t.procedures ∧
      I.passes (I.below (room + 1)) body (count + 1) last s =
        I.passes (I.below (room + 1)) body count (stop I.tokens I.table room .loop body) t ∧
      passStops I (I.below (room + 1)) body (count + 1) s =
        stop I.tokens I.table room .loop body :: passStops I (I.below (room + 1)) body count t := by
  cases hexhausted : I.exhausted s with
  | true =>
      rw [Interpreter.passes_of_exhausted hexhausted] at h
      cases h
  | false =>
      have hpasses : I.passes (I.below (room + 1)) body (count + 1) last s =
          I.passes (I.below (room + 1)) body count (I.runWithin room .loop body s.tick).1
            (I.runWithin room .loop body s.tick).2 :=
        Interpreter.passes_of_running hexhausted
      have huncut : (I.runWithin room .loop body s.tick).2.truncated = false := by
        rw [Bool.eq_false_iff]
        intro htruncated
        have hend := (keeps_truncated (C := I.clocked)).passes (room + 1) body count
          (I.runWithin room .loop body s.tick).1 htruncated
        rw [← hpasses, h] at hend
        cases hend
      have hstop := hsteady room rfl body s.tick hs huncut
      have hsound : Sound I.tokens I.table (I.runWithin room .loop body s.tick).2.procedures := by
        rw [Interpreter.runWithin_eq]
        exact (keeps_sound (C := I.clocked)).walk room .loop body false hs
      refine ⟨(I.runWithin room .loop body s.tick).2, hsound, ?_, ?_⟩
      · rw [hpasses, hstop]
      · simp [passStops, hexhausted, Interpreter.below, enter, hstop]

/-- All passes over a loop body that are not cut short stop at one place. -/
theorem passStops_eq (hsteady : Steady I (room + 1)) {body count last : Nat}
    (hs : Sound I.tokens I.table s.procedures)
    (h : (I.passes (I.below (room + 1)) body count last s).2.truncated = false) :
    passStops I (I.below (room + 1)) body count s =
        List.replicate count (stop I.tokens I.table room .loop body) ∧
      (I.passes (I.below (room + 1)) body count last s).1 =
        if count = 0 then last else stop I.tokens I.table room .loop body := by
  induction count generalizing last s with
  | zero => exact ⟨rfl, rfl⟩
  | succ count ih =>
      obtain ⟨t, ht, hpasses, hstops⟩ := passes_of_steady hsteady hs h
      rw [hpasses] at h
      obtain ⟨hrest, hlast⟩ := ih ht h
      refine ⟨?_, ?_⟩
      · rw [hstops, hrest, List.replicate_succ]
      · rw [hpasses, hlast]
        simp

/-- The passes of a loop leave its cursor where the text says. -/
theorem passes_fst (hsteady : Steady I room) {word : Token}
    (hs : Sound I.tokens I.table s.procedures)
    (h : (I.passes (I.below room) (index + 3) (passCount word)
      (Bracket.close I.tokens (index + 3)) s).2.truncated = false) :
    (I.passes (I.below room) (index + 3) (passCount word)
      (Bracket.close I.tokens (index + 3)) s).1 =
      loopEnd I.tokens (bodyStop I.tokens I.table room) index word := by
  unfold loopEnd
  cases room with
  | zero =>
      cases hcount : passCount word with
      | zero => rfl
      | succ count =>
          rw [hcount] at h
          cases hexhausted : I.exhausted s with
          | true =>
              rw [Interpreter.passes_of_exhausted hexhausted] at h
              cases h
          | false => rw [Interpreter.passes_of_running hexhausted]; rfl
  | succ room =>
      rw [(passStops_eq hsteady hs h).2]
      cases passCount word <;> rfl

theorem repetition_fst (hsteady : Steady I room) (hs : Sound I.tokens I.table s.procedures)
    (h : (I.repetition (I.below room) index s).2.truncated = false) :
    (I.repetition (I.below room) index s).1 =
      loopInput I.tokens (bodyStop I.tokens I.table room) index := by
  unfold loopInput
  cases hword : I.tokens[index + 1]? with
  | none => rw [Interpreter.repetition_of_none hword]
  | some word =>
      have hcounted : Sound I.tokens I.table (counted word s).procedures := by
        unfold counted
        split <;> exact hs
      by_cases hopening : I.tokens[index + 2]? = some .opening
      · rw [Interpreter.repetition_of_body hword hopening] at h ⊢
        simp only [if_pos hopening]
        exact congrArg (· - index) (passes_fst hsteady hcounted h)
      · rw [Interpreter.repetition_of_no_body hword hopening]
        simp [hopening]

theorem primitive_fst (name : String) :
    (I.primitive index name s).1 = nameInput I.tokens I.table index name := by
  unfold Interpreter.primitive nameInput
  cases haction : I.table.find? name with
  | none => rfl
  | some action =>
      cases action with
      | plain command => rfl
      | numeric make =>
          cases hargument : I.tokens[index + 1]? with
          | none => rfl
          | some argument => cases hx : Number.finite? argument.text <;> simp [hx]

/-- A name has the same input whether it is a procedure or not. -/
theorem invoke_fst (inner : Option (Runner σ)) (hs : Sound I.tokens I.table s.procedures) :
    (I.invoke inner index token s).1 = nameInput I.tokens I.table index token.text := by
  unfold Interpreter.invoke
  cases hfind : s.procedures.find? token.text with
  | none => exact primitive_fst token.text
  | some body => simp [nameInput, hs.not_primitive hfind]

theorem definition_fst (h : index < I.tokens.size) :
    (I.definition index s).1 = if index + 2 < I.tokens.size then 1 else 0 := by
  unfold Interpreter.definition
  split
  · split <;> rfl
  · rename_i hnone
    have hsize : I.tokens.size ≤ index + 1 := Array.getElem?_eq_none_iff.mp hnone
    rw [if_neg (by omega)]

theorem paint_fst : (I.paint index s).1 = if index + 1 < I.tokens.size then 1 else 0 := by
  unfold Interpreter.paint
  split
  · rename_i hsome
    rw [if_pos (Array.getElem?_eq_some_iff.mp hsome).1]
  · rename_i hnone
    rw [if_neg (Nat.not_lt.mpr (Array.getElem?_eq_none_iff.mp hnone))]

/-- A turn that is not cut short moves the cursor as the text says. -/
theorem turnMove_turn (hsteady : Steady I room) (hindex : index < I.tokens.size)
    (hs : Sound I.tokens I.table s.procedures)
    (h : (I.turn (I.below room) frame index token defining s).session.truncated = false) :
    turnMove (I.turn (I.below room) frame index token defining s) =
      move I.tokens I.table (bodyStop I.tokens I.table room) frame index token defining := by
  have hticked : Sound I.tokens I.table s.tick.procedures := hs
  unfold Interpreter.turn move at *
  split
  · rfl
  · rename_i hactive
    rw [if_neg hactive] at h
    unfold Interpreter.active at *
    cases hrole : token.role with
    | opening => rfl
    | closing =>
        simp only
        split <;> rfl
    | name => exact congrArg (fun n => some (n, false)) (invoke_fst (I.below room) hticked)
    | keyword word =>
        cases word with
        | finish =>
            simp only
            split <;> rfl
        | define => exact congrArg (fun n => some (n, true)) (definition_fst hindex)
        | save => rfl
        | background => exact congrArg (fun n => some (n, false)) paint_fst
        | repetition =>
            rw [hrole] at h
            exact congrArg (fun n => some (n, false)) (repetition_fst hsteady hticked h)

/-- Where a frame that is not cut short moves on, its cursor moves as the text says. -/
theorem move_of_advance (hsteady : Steady I room) (hs : Sound I.tokens I.table s.procedures)
    (htoken : I.tokens[index]? = some token) (hrunning : I.exhausted s = false) {consumed : Nat}
    {defining' : Bool} {t : Session σ}
    (hturn : I.turn (I.below room) frame index token defining s = .advance consumed defining' t)
    (huncut : (I.walk (I.below room) frame (index + 1 + consumed) defining' t).2.truncated =
      false) :
    move I.tokens I.table (bodyStop I.tokens I.table room) frame index token defining =
        some (consumed, defining') ∧
      Sound I.tokens I.table t.procedures := by
  have hlt : index < I.tokens.size := (Array.getElem?_eq_some_iff.mp htoken).1
  -- Had the turn been cut short, so would be all that comes after it.
  have ht : t.truncated = false := by
    rw [Bool.eq_false_iff]
    intro htruncated
    have hcut := (keeps_truncated (C := I.clocked)).walk room frame (index + 1 + consumed) defining'
      htruncated
    rw [huncut] at hcut
    cases hcut
  have hsound := (keeps_sound (C := I.clocked)).turn room frame defining hs htoken hrunning
  have hmove : turnMove (I.turn (I.below room) frame index token defining s) = _ :=
    turnMove_turn hsteady hlt hs (by rw [hturn]; exact ht)
  rw [hturn] at hsound hmove
  exact ⟨hmove.symm, hsound⟩

/-- A frame that is not cut short stops where the text says. -/
theorem walk_fst (hsteady : Steady I room) (hs : Sound I.tokens I.table s.procedures)
    (h : (I.walk (I.below room) frame index defining s).2.truncated = false) :
    (I.walk (I.below room) frame index defining s).1 =
      stopFrom I.tokens I.table (bodyStop I.tokens I.table room) frame index defining := by
  induction hrest : I.tokens.size - index using Nat.strongRecOn generalizing index defining s with
  | ind rest ih =>
      by_cases hlt : index < I.tokens.size
      · have htoken : I.tokens[index]? = some I.tokens[index] := Array.getElem?_eq_getElem hlt
        obtain ⟨ts, hahead⟩ := Interpreter.ahead_cons_iff.mpr htoken
        cases hexhausted : I.exhausted s with
        | true =>
            rw [Interpreter.walk_of_exhausted hlt hexhausted] at h
            cases h
        | false =>
            rw [Interpreter.walk_of_ahead_cons hahead hexhausted] at h ⊢
            rw [stopFrom_of_lt hlt]
            cases hturn : I.turn (I.below room) frame index I.tokens[index] defining s with
            | halt t =>
                rw [hturn] at h
                have hmove : turnMove (I.turn (I.below room) frame index I.tokens[index] defining s) =
                    _ := turnMove_turn hsteady hlt hs (by rw [hturn]; exact h)
                rw [← hmove, hturn]
                rfl
            | advance consumed defining' t =>
                rw [hturn] at h
                obtain ⟨hmove, hsound⟩ := move_of_advance hsteady hs htoken hexhausted hturn h
                rw [hmove]
                exact ih _ (by omega) hsound h rfl
      · have hle : I.tokens.size ≤ index := Nat.le_of_not_lt hlt
        rw [Interpreter.walk_of_size_le hle, stopFrom_of_size_le hle]

/-- At every depth, a frame that is not cut short stops where the text says. -/
theorem runWithin_fst (room : Nat) (frame : Frame) (start : Nat)
    (hs : Sound I.tokens I.table s.procedures)
    (h : (I.runWithin room frame start s).2.truncated = false) :
    (I.runWithin room frame start s).1 = stop I.tokens I.table room frame start := by
  induction room generalizing frame start s with
  | zero =>
      have hsteady : Steady I 0 := by
        intro deeper hdeeper
        cases hdeeper
      rw [Interpreter.runWithin_eq] at h ⊢
      exact walk_fst hsteady hs h
  | succ room ih =>
      have hsteady : Steady I (room + 1) := by
        intro deeper hdeeper start s hs h
        cases hdeeper
        exact ih .loop start hs h
      rw [Interpreter.runWithin_eq] at h ⊢
      exact walk_fst hsteady hs h

/-- At every depth, loop bodies stop where the text says. -/
theorem steady (I : Interpreter σ) (room : Nat) : Steady I room := by
  intro deeper _ start s hs huncut
  exact runWithin_fst deeper .loop start hs huncut

/-- In a session that has been cut short no steps are left. -/
theorem keeps_exhausted {C : Clocked σ} :
    C.Keeps fun s => s.truncated = true → C.exhausted s = true where
  tick := by
    intro s h hrunning htruncated
    rw [h htruncated] at hrunning
    cases hrunning
  give := by
    intro s command h hrunning _ htruncated
    rw [h htruncated] at hrunning
    cases hrunning
  skip _ h := h
  cut _ hexhausted _ := hexhausted
  define h _ _ _ :=
    Session.define_elim (P := fun s => s.truncated = true → C.exhausted s = true) (fun _ => h)
      fun _ => h

/-- Whether the limit on steps cuts short what is run in a session. The session may have been cut
short before, so its flag is taken down first. -/
def cutShort (run : Session σ → Nat × Session σ) (s : Session σ) : Bool :=
  (run { s with truncated := false }).2.truncated

/-- Runs a frame in which further frames may be opened from a given depth on. -/
def callAt (I : Interpreter σ) (depth : Nat) (frame : Frame) (start : Nat) (s : Session σ) :
    Nat × Session σ :=
  I.runWithin (I.limits.depth - depth) frame start s

/-- Passes over a loop body from a given depth on. -/
def passesAt (I : Interpreter σ) (depth body count last : Nat) (s : Session σ) :
    Nat × Session σ :=
  I.passes (I.below (I.limits.depth - depth)) body count last s

/-- What has been cut short in a state that was reached has no steps left. -/
theorem exhausted_of_reached {x : Machine.State σ} (hx : I.Reached x)
    (h : x.session.truncated = true) : I.exhausted x.session = true := by
  have hnew (turtle : σ) : (Session.new turtle).truncated = true →
      I.clocked.exhausted (Session.new turtle) = true := by
    intro htruncated
    cases htruncated
  exact (keeps_exhausted (C := I.clocked)).reached hnew hx h

theorem lowered_eq {s : Session σ} (h : s.truncated = false) :
    { s with truncated := false } = s := by
  rw [← h]

/-- In every state that is reached, a frame stops where the text says unless it is cut short. -/
theorem callAt_fst {x : Machine.State σ} (hx : I.Reached x) (depth : Nat) (frame : Frame)
    (start : Nat) (h : cutShort (callAt I depth frame start) x.session = false) :
    (callAt I depth frame start x.session).1 =
      stop I.tokens I.table (I.limits.depth - depth) frame start := by
  unfold cutShort callAt at h
  unfold callAt
  cases htruncated : x.session.truncated with
  | false =>
      rw [lowered_eq htruncated] at h
      exact runWithin_fst _ frame start (sound_of_reached hx) h
  | true =>
      -- No steps are left from an earlier cut, so only a frame past the tokens is not cut short.
      have hlowered : I.exhausted { x.session with truncated := false } = true :=
        exhausted_of_reached hx htruncated
      rw [Interpreter.runWithin_eq] at h ⊢
      by_cases hlt : start < I.tokens.size
      · rw [Interpreter.walk_of_exhausted hlt hlowered] at h
        cases h
      · have hle : I.tokens.size ≤ start := Nat.le_of_not_lt hlt
        rw [Interpreter.walk_of_size_le hle, stop, stopFrom_of_size_le hle]

/-- In every state that is reached, all passes over a loop body stop at one place unless they are
cut short. -/
theorem passStops_of_reached {x : Machine.State σ} (hx : I.Reached x) {depth : Nat}
    (hdepth : depth < I.limits.depth) (body count last : Nat)
    (h : cutShort (passesAt I depth body count last) x.session = false) :
    passStops I (I.below (I.limits.depth - depth)) body count x.session =
      List.replicate count (passesAt I depth body count last x.session).1 := by
  obtain ⟨room, hroom⟩ : ∃ room, I.limits.depth - depth = room + 1 :=
    ⟨I.limits.depth - depth - 1, by omega⟩
  unfold cutShort passesAt at h
  unfold passesAt
  rw [hroom] at h ⊢
  cases count with
  | zero => rfl
  | succ count =>
      cases htruncated : x.session.truncated with
      | false =>
          rw [lowered_eq htruncated] at h
          obtain ⟨hstops, hlast⟩ := passStops_eq (steady I (room + 1)) (sound_of_reached hx) h
          rw [hstops, hlast]
          rfl
      | true =>
          have hlowered : I.exhausted { x.session with truncated := false } = true :=
            exhausted_of_reached hx htruncated
          rw [Interpreter.passes_of_exhausted hlowered] at h
          cases h

/-- Where a frame stops depends on the text alone. In any two states that are reached over the same
tokens, with the same table, limit on depth, and depth, a frame that neither limit on steps cuts
short stops at the same index; and all passes over a loop body stop at the index that the last of
them leaves behind. -/
theorem stop_eq_of_reached {I : Interpreter σ} {J : Interpreter τ} (htokens : I.tokens = J.tokens)
    (htable : I.table = J.table) (hlimit : I.limits.depth = J.limits.depth)
    {x : Machine.State σ} {y : Machine.State τ} (hx : I.Reached x) (hy : J.Reached y)
    (hdepth : x.depth = y.depth) :
    (∀ frame start,
      cutShort (callAt I x.depth frame start) x.session = false →
      cutShort (callAt J y.depth frame start) y.session = false →
      (callAt I x.depth frame start x.session).1 = (callAt J y.depth frame start y.session).1) ∧
    (∀ body count last, x.depth < I.limits.depth →
      cutShort (passesAt I x.depth body count last) x.session = false →
      passStops I (I.below (I.limits.depth - x.depth)) body count x.session =
        List.replicate count (passesAt I x.depth body count last x.session).1) := by
  refine ⟨?_, ?_⟩
  · intro frame start hcut hcut'
    rw [callAt_fst hx x.depth frame start hcut, callAt_fst hy y.depth frame start hcut', htokens,
      htable, hlimit, hdepth]
  · intro body count last hroom hcut
    exact passStops_of_reached hx hroom body count last hcut

/-- A loop that calls a procedure, in front of a bracket that ends the frame around it. -/
def calling (steps : Option Nat) : Interpreter (Array Command) where
  tokens := #[⟨"to"⟩, ⟨"p"⟩, ⟨"pu"⟩, ⟨"end"⟩, ⟨"repeat"⟩, ⟨"2"⟩, .opening, ⟨"p"⟩, ⟨"home"⟩,
    .closing, .closing]
  table := .standard
  limits := ⟨3, steps⟩
  obey := Array.push

/-- The loop is run once before its procedure is defined, and once after the whole script. -/
theorem stop_eq_of_reached_calling :
    let s := (calling (some 40)).afterCalls [(.top, 0)] (.new #[])
    (calling none).Reached (.atRest (.new #[])) ∧ (calling (some 40)).Reached (.atRest s) ∧
      s.procedures.find? "p" = some 2 ∧
      (callAt (calling none) 0 .loop 4 (.new #[])).1 =
        (callAt (calling (some 40)) 0 .loop 4 s).1 ∧
      passStops (calling (some 40)) ((calling (some 40)).below 3) 7 2 s =
        List.replicate 2 (passesAt (calling (some 40)) 0 7 2 0 s).1 := by
  intro s
  have hnew : (calling none).Reached (.atRest (.new #[])) := ⟨#[], .refl⟩
  have hlater : (calling (some 40)).Reached (.atRest s) :=
    ⟨#[], (calling (some 40)).leads_afterCalls [(.top, 0)] (.new #[])⟩
  obtain ⟨hstops, -⟩ := stop_eq_of_reached (I := calling none) (J := calling (some 40)) rfl rfl
    rfl hnew hlater rfl
  obtain ⟨-, hpasses⟩ := stop_eq_of_reached (I := calling (some 40)) (J := calling none) rfl rfl
    rfl hlater hnew rfl
  refine ⟨hnew, hlater, by decide +kernel, ?_, ?_⟩
  · exact hstops .loop 4 (by decide +kernel) (by decide +kernel)
  · exact hpasses 7 2 0 (by decide) (by decide +kernel)

end StoppingPlace

end TurtleScript
