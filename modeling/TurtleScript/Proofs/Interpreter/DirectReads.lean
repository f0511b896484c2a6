import TurtleScript.Proofs.Interpreter.Machine

/-!
Reads that are not tested. Where a program takes the token at an index without asking whether there
is one, it breaks off if there is none. An interpreter may do so in three places: for the token under
the cursor of a frame, for the name of a definition, and for the word of a primitive command. Here
the machine is given such direct reads, and a read out of bounds is an error that ends everything.

The main statement is that no read is out of bounds: the machine with direct reads takes every step
that the machine takes. What a frame has tested before it reads is enough in each of the places.
-/

namespace TurtleScript

universe u

namespace Interpreter

open Machine

variable {σ : Type u}

/-- The token at an index, read without a test. If it is out of bounds, the index is the error. -/
def direct (I : Interpreter σ) (index : Nat) : Except Nat Token :=
  match I.tokens[index]? with
  | some token => .ok token
  | none => .error index

/-- Starts a definition at `index`. The name is read once a token is known to stand after it. -/
def directDefinition (I : Interpreter σ) (index : Nat) (s : Session σ) :
    Except Nat (Nat × Session σ) :=
  if index + 2 < I.tokens.size then
    (I.direct (index + 1)).map fun name => (1, s.define I.table name (index + 2))
  else .ok (0, s)

/-- Runs the primitive command at `index`, whose word is read once more. -/
def directPrimitive (I : Interpreter σ) (index : Nat) (s : Session σ) :
    Except Nat (Nat × Session σ) :=
  (I.direct index).map fun token => I.primitive index token.text s

/-- Takes a turn that opens no frame. -/
def directTurn (I : Interpreter σ) (c : Cursor) (token : Token) (s : Session σ) :
    Except Nat (Turn σ) :=
  if c.defining && token.role != .keyword .finish then .ok (.advance 0 true s)
  else
    match token.role with
    | .keyword .define =>
        (I.directDefinition c.index s).map fun result => .advance result.1 true result.2
    | .name => (I.directPrimitive c.index s.tick).map fun result => .advance result.1 false result.2
    | _ => .ok (I.turn none c.frame c.index token c.defining s)

/-- Runs the token under a cursor. -/
def directReading (I : Interpreter σ) (c : Cursor) (others : List Waiting) (s : Session σ) :
    Except Nat (State σ) :=
  (I.direct c.index).bind fun token =>
    match I.opened? c token s with
    | some _ => .ok (I.reading c token others s)
    | none => (I.directTurn c token s).map (following c others)

/-- The state that follows. A frame reads the token under its cursor if the cursor stands before the
end of the tokens and steps are left. -/
def directNext (I : Interpreter σ) (x : State σ) : Except Nat (Option (State σ)) :=
  match x.task with
  | .read c =>
      if c.index < I.tokens.size then
        if I.exhausted x.session then
          .ok (some ⟨.leave I.tokens.size, x.waiting, x.session.cut⟩)
        else (I.directReading c x.waiting x.session).map some
      else .ok (some ⟨.leave I.tokens.size, x.waiting, x.session⟩)
  | _ => .ok (I.next x)

variable {I : Interpreter σ} {c : Cursor} {token : Token} {others : List Waiting}
  {s : Session σ} {index : Nat}

theorem direct_eq_ok (h : I.tokens[index]? = some token) : I.direct index = .ok token := by
  rw [direct, h]

theorem directDefinition_eq_ok (I : Interpreter σ) (index : Nat) (s : Session σ) :
    I.directDefinition index s = .ok (I.definition index s) := by
  unfold directDefinition definition
  by_cases hroom : index + 2 < I.tokens.size
  · have hname := Array.getElem?_eq_getElem (Nat.lt_of_succ_lt hroom)
    rw [if_pos hroom, direct_eq_ok hname, hname]
    simp only [if_pos hroom]
    rfl
  · rw [if_neg hroom]
    split
    · rw [if_neg hroom]
    · rfl

theorem directPrimitive_eq_ok (h : I.tokens[index]? = some token) :
    I.directPrimitive index s = .ok (I.primitive index token.text s) := by
  rw [directPrimitive, direct_eq_ok h]
  rfl

theorem directTurn_eq_ok (htoken : I.tokens[c.index]? = some token)
    (hopened : I.opened? c token s = none) :
    I.directTurn c token s = .ok (I.turn none c.frame c.index token c.defining s) := by
  unfold directTurn
  split
  · rename_i hpassed
    rw [turn, if_pos hpassed]
  · rename_i hactive
    have hturn : I.turn none c.frame c.index token c.defining s =
        I.active none c.frame c.index token s := if_neg hactive
    cases hrole : token.role with
    | opening => rfl
    | closing => rfl
    | name =>
        -- A name outside of definitions that opens nothing names no procedure.
        have hdefining : c.defining = false := by simpa [hrole] using hactive
        have hfind : s.procedures.find? token.text = none := by
          simpa [opened?, hdefining, hrole] using hopened
        have hinvoke : I.invoke none c.index token s.tick =
            I.primitive c.index token.text s.tick := by
          simp only [invoke, Session.tick, hfind]
        simp only [hturn, active, hrole, hinvoke, directPrimitive_eq_ok htoken]
        rfl
    | keyword word =>
        cases word with
        | finish => rfl
        | repetition => rfl
        | save => rfl
        | background => rfl
        | define =>
            simp only [hturn, active, hrole, directDefinition_eq_ok]
            rfl

theorem directReading_eq_ok (htoken : I.tokens[c.index]? = some token) :
    I.directReading c others s = .ok (I.reading c token others s) := by
  rw [directReading, direct_eq_ok htoken]
  change (match I.opened? c token s with
    | some _ => Except.ok (I.reading c token others s)
    | none => (I.directTurn c token s).map (following c others)) = _
  cases hopened : I.opened? c token s with
  | some opened => rfl
  | none =>
      simp only [directTurn_eq_ok htoken hopened, reading, hopened]
      rfl

/-- No direct read is out of bounds, in whatever state a machine is. -/
theorem directNext_eq_ok (I : Interpreter σ) (x : State σ) : I.directNext x = .ok (I.next x) := by
  obtain ⟨task, waiting, s⟩ := x
  cases task with
  | rest => rfl
  | pass c left last => rfl
  | leave stop => rfl
  | read c =>
      by_cases hlt : c.index < I.tokens.size
      · have htoken := Array.getElem?_eq_getElem hlt
        cases hexhausted : I.exhausted s with
        | true => simp only [directNext, next, hlt, htoken, hexhausted, if_true]
        | false =>
            simp only [directNext, next, hlt, htoken, hexhausted, if_true, Bool.false_eq_true,
              if_false, directReading_eq_ok htoken]
            rfl
      · have hnone := Array.getElem?_eq_none (Nat.le_of_not_lt hlt)
        simp only [directNext, next, hlt, hnone, if_false]

end Interpreter

end TurtleScript
