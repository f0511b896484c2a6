import TurtleScript.Proofs.Interpreter.Correspondence

/-!
Two runs over the same tokens. This is a correspondence in which every token stands for itself, so
it is enough to say what the two runs do to their sessions. What every run keeps true of a session
is the case of a run that is compared with itself.
-/

namespace TurtleScript

universe u v

namespace Clocked

variable {σ : Type u} {τ : Type v}

open Interpreter (enter)

/-- Two interpreters over the same tokens that keep sessions related by `R` until they part, which
is when `E` begins to hold. They may part when the first of them has no steps left. -/
structure Agreement (C : Clocked σ) (D : Clocked τ) (R E : Session σ → Session τ → Prop) :
    Prop where
  tokens : C.tokens = D.tokens
  table : C.table = D.table
  procedures : ∀ {s t}, R s t → s.procedures = t.procedures
  running : ∀ {s t}, R s t → C.exhausted s = false → D.exhausted t = false
  cut : ∀ {s t}, R s t → C.exhausted s = true →
    (D.exhausted t = true ∧ R s.cut t.cut) ∨ E s.cut t
  tick : ∀ {s t}, R s t → C.exhausted s = false → R s.tick t.tick
  give : ∀ {s t command}, R s t → C.exhausted s = false → C.Gives command →
    R (C.give s command) (D.give t command)
  skip : ∀ {s t} (reason : Skip), R s t → R (s.skip reason) (t.skip reason)
  define : ∀ {s t name index}, R s t → C.tokens[index]? = some Keyword.define.token →
    C.tokens[index + 1]? = some name → index + 2 < C.tokens.size →
    R (s.define C.table name (index + 2)) (t.define D.table name (index + 2))
  left : ∀ {t} (room : Nat), C.Stable room (E · t)
  right : ∀ {s} (room : Nat), D.Stable room (E s ·)

/-- Nested frames opened from two levels agree. -/
def Nested (C : Clocked σ) (D : Clocked τ) (R E : Session σ → Session τ → Prop)
    (room room' : Nat) : Prop :=
  ∀ token frame start s t, R s t →
    Agree R E (enter (C.below room) token frame start s) (enter (D.below room') token frame start t)

section

variable {C : Clocked σ} {D : Clocked τ} {R E : Session σ → Session τ → Prop} {room room' : Nat}
  {frame : Frame} {index : Nat} {defining : Bool} {s : Session σ} {t : Session τ}

/-- Under tables that agree on the names of the script, the same commands are given. -/
theorem gives_of_counterpart {table' : CommandTable} {command command' : Command}
    (htables : ∀ token ∈ C.tokens, token.role = .name →
      table'.find? token.text = C.table.find? token.text)
    (h : Counterpart C.tokens C.table table' id command command') :
    command' = command ∧ C.Gives command := by
  cases h with
  | save => exact ⟨rfl, .save⟩
  | background hcolour => exact ⟨rfl, .background hcolour⟩
  | plain htoken hname haction haction' =>
      rw [id_eq, htables _ htoken hname, haction] at haction'
      cases haction'
      exact ⟨rfl, .plain haction⟩
  | numeric htoken hname haction haction' hx =>
      rw [id_eq, htables _ htoken hname, haction] at haction'
      cases haction'
      exact ⟨rfl, .numeric haction hx⟩

theorem Agreement.correspondence (h : Agreement C D R E) : Correspondence C D id R E where
  tokens := by rw [Array.map_id, h.tokens]
  opening := rfl
  role _ := rfl
  count _ := rfl
  number _ := rfl
  action _ _ := by
    rw [h.table]
    rfl
  procedure hst _ _ := by
    rw [h.procedures hst]
    rfl
  running := h.running
  cut := h.cut
  tick := h.tick
  give hst hrunning hgives := by
    obtain ⟨rfl, hgives⟩ := gives_of_counterpart (fun _ _ _ => by rw [h.table]) hgives
    exact h.give hst hrunning hgives
  skip reason hst := by
    rw [reason.rename_id]
    exact h.skip reason hst
  define := h.define
  left := h.left
  right := h.right

theorem Agreement.passes (h : Agreement C D R E) (hnested : Nested C D R E room room')
    (s₀ : Session σ) (t₀ : Session τ) (body count last : Nat) (hst : R s t) :
    Agree R E ((C.during s₀).passes (C.below room) body count last s)
      ((D.during t₀).passes (D.below room') body count last t) :=
  h.correspondence.passes hnested s₀ t₀ body count last hst

theorem Agreement.turn (h : Agreement C D R E) (hnested : Nested C D R E room room')
    {token : Token} (htoken : C.tokens[index]? = some token) (hst : R s t)
    (hrunning : C.exhausted s = false) :
    TurnAgree R E ((C.during s).turn (C.below room) frame index token defining s)
      ((D.during t).turn (D.below room') frame index token defining t) :=
  h.correspondence.turn hnested htoken hst hrunning

/-- A whole frame agrees. -/
theorem Agreement.walk (h : Agreement C D R E) (hnested : Nested C D R E room room')
    (hst : R s t) :
    Agree R E (C.walk (C.below room) frame index defining s)
      (D.walk (D.below room') frame index defining t) :=
  h.correspondence.walk hnested hst

/-- Frames nested inside equally many others agree. -/
theorem Agreement.nested (h : Agreement C D R E) (room : Nat) : Nested C D R E room room :=
  h.correspondence.nested room

theorem Agreement.run (h : Agreement C D R E) (hdepth : C.limits.depth = D.limits.depth)
    (hst : R s t) : Agree R E (C.run frame index s) (D.run frame index t) :=
  h.correspondence.run hdepth hst

end

/-- What no single thing that a run does to a session breaks. -/
structure Keeps (C : Clocked σ) (P : Session σ → Prop) : Prop where
  tick : ∀ {s}, P s → C.exhausted s = false → P s.tick
  give : ∀ {s command}, P s → C.exhausted s = false → C.Gives command → P (C.give s command)
  skip : ∀ {s} (reason : Skip), P s → P (s.skip reason)
  cut : ∀ {s}, P s → C.exhausted s = true → P s.cut
  define : ∀ {s name index}, P s → C.tokens[index]? = some Keyword.define.token →
    C.tokens[index + 1]? = some name → index + 2 < C.tokens.size →
    P (s.define C.table name (index + 2))

section

variable {C : Clocked σ} {P : Session σ → Prop}

theorem Keeps.agreement (h : C.Keeps P) :
    Agreement C C (fun s t => s = t ∧ P s) (fun _ _ => False) where
  tokens := rfl
  table := rfl
  procedures hst := congrArg Session.procedures hst.1
  running hst hrunning := hst.1 ▸ hrunning
  cut := by
    rintro s t ⟨rfl, hs⟩ hexhausted
    exact Or.inl ⟨hexhausted, rfl, h.cut hs hexhausted⟩
  tick := by
    rintro s t ⟨rfl, hs⟩ hrunning
    exact ⟨rfl, h.tick hs hrunning⟩
  give := by
    rintro s t command ⟨rfl, hs⟩ hrunning hgives
    exact ⟨rfl, h.give hs hrunning hgives⟩
  skip := by
    rintro s t reason ⟨rfl, hs⟩
    exact ⟨rfl, h.skip reason hs⟩
  define := by
    rintro s t name index ⟨rfl, hs⟩ htoken hname hroom
    exact ⟨rfl, h.define hs htoken hname hroom⟩
  left _ := ⟨False.elim, False.elim⟩
  right _ := ⟨False.elim, False.elim⟩

/-- What every step keeps, every run keeps. -/
theorem Keeps.stable (h : C.Keeps P) (room : Nat) : C.Stable room P where
  walk := by
    intro frame index defining s hs
    rcases h.agreement.walk (h.agreement.nested room) ⟨rfl, hs⟩ with ⟨_, _, hwalk⟩ | hparted
    · exact hwalk
    · exact hparted.elim
  passes := by
    intro start body count last s hs
    rcases h.agreement.passes (h.agreement.nested room) start start body count last ⟨rfl, hs⟩ with
      ⟨_, _, hpasses⟩ | hparted
    · exact hpasses
    · exact hparted.elim

theorem Keeps.run (h : C.Keeps P) (frame : Frame) (start : Nat) {s : Session σ} (hs : P s) :
    P (C.run frame start s).2 :=
  (h.stable C.limits.depth).walk hs

theorem Keeps.walk {I : Interpreter σ} (h : I.clocked.Keeps P) (room : Nat) (frame : Frame)
    (index : Nat) (defining : Bool) {s : Session σ} (hs : P s) :
    P (I.walk (I.below room) frame index defining s).2 := by
  rw [← I.clocked_walk, ← I.clocked_below]
  exact (h.stable room).walk hs

theorem Keeps.passes {I : Interpreter σ} (h : I.clocked.Keeps P) (room body count last : Nat)
    {s : Session σ} (hs : P s) : P (I.passes (I.below room) body count last s).2 := by
  rw [← I.clocked_below]
  have hpasses : P ((I.clocked.during s).passes (I.clocked.below room) body count last s).2 :=
    (h.stable room).passes hs
  exact hpasses

end

end Clocked

namespace Session

variable {σ : Type u} {τ : Type v}

/-- The same session on another turtle. -/
def onTurtle (t : Session τ) (f : τ → σ) : Session σ where
  turtle := f t.turtle
  procedures := t.procedures
  steps := t.steps
  skipped := t.skipped
  truncated := t.truncated

theorem onTurtle_define (t : Session τ) (f : τ → σ) (table : CommandTable) (name : Token)
    (body : Nat) :
    (t.onTurtle f).define table name body = (t.define table name body).onTurtle f := by
  have hprocedures : (t.onTurtle f).procedures = t.procedures := rfl
  simp only [define, hprocedures]
  cases t.procedures.define table name body <;> rfl

end Session

namespace Clocked

variable {σ : Type u} {τ : Type v}

/-- The same interpreter for another turtle. -/
def onTurtle (D : Clocked τ) (obey : Nat → σ → Command → σ) : Clocked σ where
  tokens := D.tokens
  table := D.table
  limits := D.limits
  obey := obey

/-- A run is the same for every turtle, up to the turtle. -/
theorem run_onTurtle (D : Clocked τ) (obey : Nat → σ → Command → σ) (f : τ → σ)
    (hobey : ∀ step x command, f (D.obey step x command) = obey step (f x) command)
    (frame : Frame) (start : Nat) (t : Session τ) :
    (D.onTurtle obey).run frame start (t.onTurtle f) =
      ((D.run frame start t).1, (D.run frame start t).2.onTurtle f) := by
  have h : Agreement (D.onTurtle obey) D (fun s t => s = t.onTurtle f) (fun _ _ => False) := {
    tokens := rfl
    table := rfl
    procedures := by
      rintro s t rfl
      rfl
    running := by
      rintro s t rfl hrunning
      exact hrunning
    cut := by
      rintro s t rfl hexhausted
      exact Or.inl ⟨hexhausted, rfl⟩
    tick := by
      rintro s t rfl _
      rfl
    give := by
      rintro s t command rfl _ _
      have htell := hobey (t.steps + 1) t.turtle command
      simp [give, Interpreter.tell, during, Session.onTurtle, Session.tick, onTurtle, htell]
    skip := by
      rintro s t reason rfl
      rfl
    define := by
      rintro s t name index rfl _ _ _
      exact Session.onTurtle_define t f D.table name (index + 2)
    left := fun _ => ⟨False.elim, False.elim⟩
    right := fun _ => ⟨False.elim, False.elim⟩ }
  have hrun : Agree (fun s t => s = t.onTurtle f) (fun _ _ => False)
      ((D.onTurtle obey).run frame start (t.onTurtle f)) (D.run frame start t) := h.run rfl rfl
  rcases hrun with ⟨hstop, hsession⟩ | hparted
  · exact Prod.ext hstop hsession
  · exact hparted.elim

end Clocked

end TurtleScript
