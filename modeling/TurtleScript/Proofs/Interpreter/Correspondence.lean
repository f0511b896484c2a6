import TurtleScript.Proofs.Interpreter.Clocked

/-!
Two runs side by side, over tokens that may be spelt differently. The tokens of the second run are
those of the first under a renaming that keeps all that moves a cursor: the role of a token, the
number and the count it stands for, the procedure it names, and how many inputs the primitive takes
that it names. What command the primitive gives is left to the table of each run.

As long as the sessions of the two runs are related, their cursors move alike, whatever the relation
is: it only has to be kept by each single thing that a run does to a session. Once the runs have
parted they stay parted.
-/

namespace TurtleScript

universe u v

/-- A word under a renaming of tokens. -/
def Token.renameWord (f : Token → Token) (word : String) : String :=
  (f ⟨word⟩).text

/-- A reason with another word for each of its words. -/
def Skip.rename (f : String → String) : Skip → Skip
  | unknownCommand token => unknownCommand (f token)
  | missingArgument command => missingArgument (f command)
  | badArgument command argument => badArgument (f command) (f argument)
  | badCount token => badCount (f token)
  | missingBody => missingBody
  | shadowsPrimitive name => shadowsPrimitive (f name)
  | reservedName name => reservedName (f name)
  | redefined name => redefined (f name)
  | depthLimit token => depthLimit (f token)

/-- Where every token stands for itself, so does every reason. -/
theorem Skip.rename_id (reason : Skip) : reason.rename (Token.renameWord id) = reason := by
  cases reason <;> rfl

/-- Commands that are given at the same place of a script and of the script under a renaming. The
language has one command with a word of the script in it; a primitive gives the command that its own
table makes of it. -/
inductive Counterpart (tokens : Array Token) (table table' : CommandTable) (f : Token → Token) :
    Command → Command → Prop
  | save : Counterpart tokens table table' f .save .save
  | background {colour : Token} (h : colour ∈ tokens) :
      Counterpart tokens table table' f (.background colour.text) (.background (f colour).text)
  | plain {token : Token} {command command' : Command} (htoken : token ∈ tokens)
      (hname : token.role = .name) (h : table.find? token.text = some (.plain command))
      (h' : table'.find? (f token).text = some (.plain command')) :
      Counterpart tokens table table' f command command'
  | numeric {token : Token} {text : String} {make make' : Float → Command} {x : Float}
      (htoken : token ∈ tokens) (hname : token.role = .name)
      (h : table.find? token.text = some (.numeric make))
      (h' : table'.find? (f token).text = some (.numeric make'))
      (hx : Number.finite? text = some x) : Counterpart tokens table table' f (make x) (make' x)

/-- A bracket closes a body wherever it does in tokens with the same roles. -/
theorem Bracket.closeFrom_map {tokens : Array Token} {f : Token → Token}
    (h : ∀ token ∈ tokens, (f token).role = token.role) (depth start : Nat) :
    closeFrom (tokens.map f) depth start = closeFrom tokens depth start := by
  have hopening {i : Nat} (hlt : i < tokens.size) :
      f tokens[i] = .opening ↔ tokens[i] = .opening := by
    rw [← Token.role_eq_opening_iff, ← Token.role_eq_opening_iff, h _ (Array.getElem_mem hlt)]
  have hclosing {i : Nat} (hlt : i < tokens.size) :
      f tokens[i] = .closing ↔ tokens[i] = .closing := by
    rw [← Token.role_eq_closing_iff, ← Token.role_eq_closing_iff, h _ (Array.getElem_mem hlt)]
  have hdiffer : Token.closing ≠ Token.opening := by decide
  fun_induction closeFrom tokens depth start with
  | case1 depth start hlt hhere ih =>
      rw [closeFrom.eq_def (tokens.map f)]
      simp [hlt, (hopening hlt).mpr hhere, ih]
  | case2 start hlt hnot hhere =>
      rw [closeFrom.eq_def (tokens.map f)]
      simp [hlt, (hclosing hlt).mpr hhere, hdiffer]
  | case3 start hlt hnot hhere outer ih =>
      rw [closeFrom.eq_def (tokens.map f)]
      simp [hlt, (hclosing hlt).mpr hhere, hdiffer, ih]
  | case4 depth start hlt hnot hnot' ih =>
      rw [closeFrom.eq_def (tokens.map f)]
      simp [hlt, mt (hopening hlt).mp hnot, mt (hclosing hlt).mp hnot', ih]
  | case5 depth start hlt =>
      rw [closeFrom.eq_def (tokens.map f)]
      simp [hlt]

namespace Clocked

variable {σ : Type u} {τ : Type v}

open Interpreter (Runner enter Turn)

/-- Sessions of two runs that are related, or have parted. -/
def Agree (R E : Session σ → Session τ → Prop) {α : Type} (a : α × Session σ)
    (b : α × Session τ) : Prop :=
  (a.1 = b.1 ∧ R a.2 b.2) ∨ E a.2 b.2

/-- Two interpreters that keep sessions related by `R` until they part, which is when `E` begins to
hold. The tokens of the second are those of the first under `f`, and each of them has the role, the
count and the number of the one it stands for, and an action with as many inputs. They may part when
the first interpreter has no steps left. -/
structure Correspondence (C : Clocked σ) (D : Clocked τ) (f : Token → Token)
    (R E : Session σ → Session τ → Prop) : Prop where
  tokens : D.tokens = C.tokens.map f
  opening : f .opening = .opening
  role : ∀ {token}, token ∈ C.tokens → (f token).role = token.role
  count : ∀ {token}, token ∈ C.tokens →
    Integer.leading? (f token).text = Integer.leading? token.text
  number : ∀ {token}, token ∈ C.tokens → Number.finite? (f token).text = Number.finite? token.text
  action : ∀ {token}, token ∈ C.tokens → token.role = .name →
    (D.table.find? (f token).text).map Action.arity = (C.table.find? token.text).map Action.arity
  procedure : ∀ {s t token}, R s t → token ∈ C.tokens → token.role = .name →
    t.procedures.find? (f token).text = s.procedures.find? token.text
  running : ∀ {s t}, R s t → C.exhausted s = false → D.exhausted t = false
  cut : ∀ {s t}, R s t → C.exhausted s = true →
    (D.exhausted t = true ∧ R s.cut t.cut) ∨ E s.cut t
  tick : ∀ {s t}, R s t → C.exhausted s = false → R s.tick t.tick
  give : ∀ {s t command command'}, R s t → C.exhausted s = false →
    Counterpart C.tokens C.table D.table f command command' →
      R (C.give s command) (D.give t command')
  skip : ∀ {s t} (reason : Skip), R s t →
    R (s.skip reason) (t.skip (reason.rename (Token.renameWord f)))
  define : ∀ {s t name index}, R s t → C.tokens[index]? = some Keyword.define.token →
    C.tokens[index + 1]? = some name → index + 2 < C.tokens.size →
    R (s.define C.table name (index + 2)) (t.define D.table (f name) (index + 2))
  left : ∀ {t} (room : Nat), C.Stable room (E · t)
  right : ∀ {s} (room : Nat), D.Stable room (E s ·)

/-- Nested frames opened from two levels agree. -/
def NestedUnder (f : Token → Token) (C : Clocked σ) (D : Clocked τ)
    (R E : Session σ → Session τ → Prop) (room room' : Nat) : Prop :=
  ∀ token frame start s t, R s t →
    Agree R E (enter (C.below room) token frame start s)
      (enter (D.below room') (f token) frame start t)

namespace Correspondence

variable {C : Clocked σ} {D : Clocked τ} {f : Token → Token} {R E : Session σ → Session τ → Prop}
  {room room' : Nat} {frame : Frame} {index : Nat} {token : Token} {defining : Bool}
  {s : Session σ} {t : Session τ}

theorem size (h : Correspondence C D f R E) : D.tokens.size = C.tokens.size := by
  rw [h.tokens, Array.size_map]

theorem getElem? (h : Correspondence C D f R E) (i : Nat) :
    D.tokens[i]? = C.tokens[i]?.map f := by
  rw [h.tokens, Array.getElem?_map]

theorem close (h : Correspondence C D f R E) (body : Nat) :
    Bracket.close D.tokens body = Bracket.close C.tokens body := by
  rw [h.tokens]
  exact Bracket.closeFrom_map (fun _ => h.role) 0 body

/-- The passes of a loop agree. -/
theorem passes (h : Correspondence C D f R E) (hnested : NestedUnder f C D R E room room')
    (s₀ : Session σ) (t₀ : Session τ) (body count last : Nat) (hst : R s t) :
    Agree R E ((C.during s₀).passes (C.below room) body count last s)
      ((D.during t₀).passes (D.below room') body count last t) := by
  induction count generalizing last s t with
  | zero => exact Or.inl ⟨rfl, hst⟩
  | succ count ih =>
      cases hexhausted : C.exhausted s with
      | true =>
          have hleft : (C.during s₀).exhausted s = true := hexhausted
          rw [Interpreter.passes_of_exhausted hleft]
          rcases h.cut hst hexhausted with ⟨hexhausted', hcut⟩ | hparted
          · have hright : (D.during t₀).exhausted t = true := hexhausted'
            rw [Interpreter.passes_of_exhausted hright]
            exact Or.inl ⟨h.size.symm, hcut⟩
          · exact Or.inr ((h.right room').passes hparted)
      | false =>
          have hleft : (C.during s₀).exhausted s = false := hexhausted
          have hright : (D.during t₀).exhausted t = false := h.running hst hexhausted
          rw [Interpreter.passes_of_running hleft, Interpreter.passes_of_running hright]
          have hagree := hnested .opening .loop body _ _ (h.tick hst hexhausted)
          rw [h.opening] at hagree
          generalize enter (C.below room) .opening .loop body s.tick = a at hagree ⊢
          generalize enter (D.below room') .opening .loop body t.tick = b at hagree ⊢
          obtain ⟨stop, s'⟩ := a
          obtain ⟨stop', t'⟩ := b
          rcases hagree with ⟨hstop, hst'⟩ | hparted
          · change stop = stop' at hstop
            subst hstop
            cases stop with
            | none => exact Or.inl ⟨(h.close body).symm, hst'⟩
            | some stop => exact ih stop hst'
          · -- The passes that are left change only the session of their own run.
            cases stop with
            | none =>
                cases stop' with
                | none => exact Or.inr hparted
                | some stop' => exact Or.inr ((h.right room').passes hparted)
            | some stop =>
                have hleft' : E ((C.during s₀).passes (C.below room) body count stop s').2 t' :=
                  (h.left room).passes hparted
                cases stop' with
                | none => exact Or.inr hleft'
                | some stop' => exact Or.inr ((h.right room').passes hleft')

theorem counted (h : Correspondence C D f R E) {word : Token} (hword : word ∈ C.tokens)
    (hst : R s t) : R (Interpreter.counted word s) (Interpreter.counted (f word) t) := by
  unfold Interpreter.counted
  rw [h.count hword]
  split
  · exact h.skip _ hst
  · exact hst

/-- A loop agrees. -/
theorem repetition (h : Correspondence C D f R E) (hnested : NestedUnder f C D R E room room')
    (s₀ : Session σ) (t₀ : Session τ) (hst : R s t) :
    Agree R E ((C.during s₀).repetition (C.below room) index s)
      ((D.during t₀).repetition (D.below room') index t) := by
  have htokens (i : Nat) : (D.during t₀).tokens[i]? = C.tokens[i]?.map f := h.getElem? i
  cases hword : C.tokens[index + 1]? with
  | none =>
      have hleft : (C.during s₀).tokens[index + 1]? = none := hword
      have hright : (D.during t₀).tokens[index + 1]? = none := by
        rw [htokens, hword, Option.map_none]
      rw [Interpreter.repetition_of_none hleft, Interpreter.repetition_of_none hright]
      exact Or.inl ⟨rfl, h.skip _ hst⟩
  | some word =>
      have hmem : word ∈ C.tokens := Array.mem_of_getElem? hword
      have hcounted := h.counted hmem hst
      have hleft : (C.during s₀).tokens[index + 1]? = some word := hword
      have hright : (D.during t₀).tokens[index + 1]? = some (f word) := by
        rw [htokens, hword, Option.map_some]
      by_cases hopening : C.tokens[index + 2]? = some .opening
      · have hleft' : (C.during s₀).tokens[index + 2]? = some .opening := hopening
        have hright' : (D.during t₀).tokens[index + 2]? = some .opening := by
          rw [htokens, hopening, Option.map_some, h.opening]
        rw [Interpreter.repetition_of_body hleft hleft',
          Interpreter.repetition_of_body hright hright', h.count hmem]
        have hclose : Bracket.close (D.during t₀).tokens (index + 3) =
            Bracket.close (C.during s₀).tokens (index + 3) := h.close (index + 3)
        rw [hclose]
        rcases h.passes hnested s₀ t₀ (index + 3) ((Integer.leading? word.text).getD 0).toNat
          (Bracket.close (C.during s₀).tokens (index + 3)) hcounted with ⟨hlast, hst'⟩ | hparted
        · exact Or.inl ⟨congrArg (· - index) hlast, hst'⟩
        · exact Or.inr hparted
      · have hleft' : (C.during s₀).tokens[index + 2]? ≠ some .opening := hopening
        have hright' : (D.during t₀).tokens[index + 2]? ≠ some .opening := by
          intro hrenamed
          rw [htokens] at hrenamed
          obtain ⟨other, hother, hrole⟩ := Option.map_eq_some_iff.mp hrenamed
          have hsame : other.role = .opening := by
            rw [← h.role (Array.mem_of_getElem? hother), hrole, Token.role_opening]
          rw [Token.role_eq_opening_iff.mp hsame] at hother
          exact hopening hother
        rw [Interpreter.repetition_of_no_body hleft hleft',
          Interpreter.repetition_of_no_body hright hright']
        exact Or.inl ⟨rfl, h.skip _ hcounted⟩

theorem find?_of_none (h : Correspondence C D f R E) (hmem : token ∈ C.tokens)
    (hname : token.role = .name) (haction : C.table.find? token.text = none) :
    D.table.find? (f token).text = none := by
  have harity := h.action hmem hname
  rw [haction, Option.map_none, Option.map_eq_none_iff] at harity
  exact harity

theorem find?_of_plain (h : Correspondence C D f R E) (hmem : token ∈ C.tokens)
    (hname : token.role = .name) {command : Command}
    (haction : C.table.find? token.text = some (.plain command)) :
    ∃ command', D.table.find? (f token).text = some (.plain command') := by
  have harity := h.action hmem hname
  rw [haction, Option.map_some, Option.map_eq_some_iff] at harity
  obtain ⟨action, haction', hinputs⟩ := harity
  cases action with
  | plain command' => exact ⟨command', haction'⟩
  | numeric make' => cases hinputs

theorem find?_of_numeric (h : Correspondence C D f R E) (hmem : token ∈ C.tokens)
    (hname : token.role = .name) {make : Float → Command}
    (haction : C.table.find? token.text = some (.numeric make)) :
    ∃ make', D.table.find? (f token).text = some (.numeric make') := by
  have harity := h.action hmem hname
  rw [haction, Option.map_some, Option.map_eq_some_iff] at harity
  obtain ⟨action, haction', hinputs⟩ := harity
  cases action with
  | plain command' => cases hinputs
  | numeric make' => exact ⟨make', haction'⟩

/-- A primitive command agrees when it is run in its own step. -/
theorem primitive (h : Correspondence C D f R E) (hmem : token ∈ C.tokens)
    (hname : token.role = .name) (hst : R s t) (hrunning : C.exhausted s = false) :
    Agree R E ((C.during s).primitive index token.text s.tick)
      ((D.during t).primitive index (f token).text t.tick) := by
  have htick := h.tick hst hrunning
  have htokens : (D.during t).tokens[index + 1]? = C.tokens[index + 1]?.map f := h.getElem? _
  cases haction : C.table.find? token.text with
  | none =>
      have hleft : (C.during s).table.find? token.text = none := haction
      have hright : (D.during t).table.find? (f token).text = none :=
        h.find?_of_none hmem hname haction
      simp only [Interpreter.primitive, hleft, hright]
      exact Or.inl ⟨rfl, h.skip _ htick⟩
  | some action =>
      have hleft : (C.during s).table.find? token.text = some action := haction
      cases action with
      | plain command =>
          obtain ⟨command', haction'⟩ := h.find?_of_plain hmem hname haction
          have hright : (D.during t).table.find? (f token).text = some (.plain command') := haction'
          simp only [Interpreter.primitive, hleft, hright]
          exact Or.inl ⟨rfl, h.give hst hrunning (.plain hmem hname haction haction')⟩
      | numeric make =>
          obtain ⟨make', haction'⟩ := h.find?_of_numeric hmem hname haction
          have hright : (D.during t).table.find? (f token).text = some (.numeric make') := haction'
          cases hargument : C.tokens[index + 1]? with
          | none =>
              have hmissing : (C.during s).tokens[index + 1]? = none := hargument
              simp only [Interpreter.primitive, hleft, hright, hmissing, htokens, hargument,
                Option.map_none]
              exact Or.inl ⟨rfl, h.skip _ htick⟩
          | some argument =>
              have hgiven : (C.during s).tokens[index + 1]? = some argument := hargument
              simp only [Interpreter.primitive, hleft, hright, hgiven, htokens, hargument,
                Option.map_some, h.number (Array.mem_of_getElem? hargument)]
              cases hx : Number.finite? argument.text with
              | none => exact Or.inl ⟨rfl, h.skip _ htick⟩
              | some x =>
                  exact Or.inl ⟨rfl, h.give hst hrunning (.numeric hmem hname haction haction' hx)⟩

theorem definition (h : Correspondence C D f R E) (hst : R s t)
    (htoken : C.tokens[index]? = some Keyword.define.token) :
    Agree R E ((C.during s).definition index s) ((D.during t).definition index t) := by
  have htokens : (D.during t).tokens[index + 1]? = (C.during s).tokens[index + 1]?.map f :=
    h.getElem? _
  have hsize : (D.during t).tokens.size = (C.during s).tokens.size := h.size
  simp only [Interpreter.definition, htokens, hsize]
  cases hname : (C.during s).tokens[index + 1]? with
  | none => exact Or.inl ⟨rfl, hst⟩
  | some name =>
      simp only [Option.map_some]
      by_cases hroom : index + 2 < (C.during s).tokens.size
      · simp only [if_pos hroom]
        exact Or.inl ⟨rfl, h.define hst htoken hname hroom⟩
      · simp only [if_neg hroom]
        exact Or.inl ⟨rfl, hst⟩

theorem paint (h : Correspondence C D f R E) (hst : R s t) (hrunning : C.exhausted s = false) :
    Agree R E ((C.during s).paint index s.tick) ((D.during t).paint index t.tick) := by
  have htokens : (D.during t).tokens[index + 1]? = (C.during s).tokens[index + 1]?.map f :=
    h.getElem? _
  simp only [Interpreter.paint, htokens]
  cases hcolour : (C.during s).tokens[index + 1]? with
  | none => exact Or.inl ⟨rfl, h.tick hst hrunning⟩
  | some colour =>
      have hmem : colour ∈ C.tokens := Array.mem_of_getElem? hcolour
      exact Or.inl ⟨rfl, h.give hst hrunning (.background hmem)⟩

theorem invoke (h : Correspondence C D f R E) (hnested : NestedUnder f C D R E room room')
    (hmem : token ∈ C.tokens) (hname : token.role = .name) (hst : R s t)
    (hrunning : C.exhausted s = false) :
    Agree R E ((C.during s).invoke (C.below room) index token s.tick)
      ((D.during t).invoke (D.below room') index (f token) t.tick) := by
  have htick := h.tick hst hrunning
  unfold Interpreter.invoke
  rw [h.procedure htick hmem hname]
  cases s.tick.procedures.find? token.text with
  | none => exact h.primitive hmem hname hst hrunning
  | some body =>
      rcases hnested token .procedure body _ _ htick with ⟨_, hst'⟩ | hparted
      · exact Or.inl ⟨rfl, hst'⟩
      · exact Or.inr hparted

end Correspondence

/-- Turns that end alike, or have parted while they went on. -/
def TurnAgree (R E : Session σ → Session τ → Prop) : Turn σ → Turn τ → Prop
  | .halt s, .halt t => R s t
  | .advance consumed defining s, .advance consumed' defining' t =>
      (consumed = consumed' ∧ defining = defining' ∧ R s t) ∨ E s t
  | _, _ => False

theorem Agree.advance {R E : Session σ → Session τ → Prop} {a : Nat × Session σ}
    {b : Nat × Session τ} (h : Agree R E a b) (defining : Bool) :
    TurnAgree R E (.advance a.1 defining a.2) (.advance b.1 defining b.2) := by
  rcases h with ⟨hconsumed, hst⟩ | hparted
  · exact Or.inl ⟨hconsumed, rfl, hst⟩
  · exact Or.inr hparted

namespace Correspondence

variable {C : Clocked σ} {D : Clocked τ} {f : Token → Token} {R E : Session σ → Session τ → Prop}
  {room room' : Nat} {frame : Frame} {index : Nat} {token : Token} {defining : Bool}
  {s : Session σ} {t : Session τ}

/-- A turn agrees, whatever token stands under the cursor. -/
theorem turn (h : Correspondence C D f R E) (hnested : NestedUnder f C D R E room room')
    (htoken : C.tokens[index]? = some token) (hst : R s t) (hrunning : C.exhausted s = false) :
    TurnAgree R E ((C.during s).turn (C.below room) frame index token defining s)
      ((D.during t).turn (D.below room') frame index (f token) defining t) := by
  have hmem : token ∈ C.tokens := Array.mem_of_getElem? htoken
  have htick := h.tick hst hrunning
  unfold Interpreter.turn
  rw [h.role hmem]
  split
  · exact Or.inl ⟨rfl, rfl, hst⟩
  · unfold Interpreter.active
    rw [h.role hmem]
    cases hrole : token.role with
    | opening => exact Or.inl ⟨rfl, rfl, hst⟩
    | closing =>
        by_cases hframe : frame = .loop
        · simp only [if_pos hframe]
          exact hst
        · simp only [if_neg hframe]
          exact Or.inl ⟨rfl, rfl, hst⟩
    | name => exact (h.invoke hnested hmem hrole hst hrunning).advance false
    | keyword word =>
        cases word with
        | finish =>
            cases hframe : frame.isNested with
            | true => simpa [TurnAgree] using hst
            | false => exact Or.inl ⟨rfl, rfl, hst⟩
        | define =>
            rw [Token.role_eq_keyword_iff.mp hrole] at htoken
            exact (h.definition hst htoken).advance true
        | save => exact Or.inl ⟨rfl, rfl, h.give hst hrunning .save⟩
        | background => exact (h.paint hst hrunning).advance false
        | repetition => exact (h.repetition hnested s t htick).advance false

/-- A whole frame agrees. -/
theorem walk (h : Correspondence C D f R E) (hnested : NestedUnder f C D R E room room')
    (hst : R s t) :
    Agree R E (C.walk (C.below room) frame index defining s)
      (D.walk (D.below room') frame index defining t) := by
  induction hrest : C.tokens.size - index using Nat.strongRecOn generalizing index defining s t with
  | ind rest ih =>
      by_cases hlt : index < C.tokens.size
      · have hlt' : index < D.tokens.size := h.size ▸ hlt
        cases hexhausted : C.exhausted s with
        | true =>
            rw [walk_of_exhausted hlt hexhausted]
            rcases h.cut hst hexhausted with ⟨hexhausted', hcut⟩ | hparted
            · rw [walk_of_exhausted hlt' hexhausted']
              exact Or.inl ⟨h.size.symm, hcut⟩
            · exact Or.inr ((h.right room').walk hparted)
        | false =>
            have hget : D.tokens[index] = f C.tokens[index] := by
              simp only [h.tokens, Array.getElem_map]
            rw [walk_of_running hlt hexhausted, walk_of_running hlt' (h.running hst hexhausted),
              hget]
            have hturn : TurnAgree R E
                ((C.during s).turn (C.below room) frame index C.tokens[index] defining s)
                ((D.during t).turn (D.below room') frame index (f C.tokens[index]) defining t) :=
              h.turn hnested (Array.getElem?_eq_getElem hlt) hst hexhausted
            generalize (C.during s).turn (C.below room) frame index C.tokens[index] defining s = a
              at hturn ⊢
            generalize (D.during t).turn (D.below room') frame index (f C.tokens[index]) defining
              t = b at hturn ⊢
            match a, b, hturn with
            | .halt s', .halt t', hst' => exact Or.inl ⟨rfl, hst'⟩
            | .advance consumed defining' s', .advance consumed' defining'' t', hturn =>
                rcases hturn with ⟨rfl, rfl, hst'⟩ | hparted
                · exact ih _ (by omega) hst' rfl
                · exact Or.inr ((h.right room').walk ((h.left room).walk hparted))
      · have hle : C.tokens.size ≤ index := Nat.le_of_not_lt hlt
        have hle' : D.tokens.size ≤ index := h.size ▸ hle
        rw [walk_of_size_le hle, walk_of_size_le hle']
        exact Or.inl ⟨h.size.symm, hst⟩

/-- Frames nested inside equally many others agree. -/
theorem nested (h : Correspondence C D f R E) (room : Nat) : NestedUnder f C D R E room room := by
  induction room with
  | zero =>
      intro token frame start s t hst
      exact Or.inl ⟨rfl, h.skip _ hst⟩
  | succ room ih =>
      intro token frame start s t hst
      have hwalk : Agree R E (C.walk (C.below room) frame start false s)
          (D.walk (D.below room) frame start false t) := h.walk ih hst
      rcases hwalk with ⟨hstop, hst'⟩ | hparted
      · exact Or.inl ⟨congrArg some hstop, hst'⟩
      · exact Or.inr hparted

theorem run (h : Correspondence C D f R E) (hdepth : C.limits.depth = D.limits.depth)
    (hst : R s t) : Agree R E (C.run frame index s) (D.run frame index t) := by
  unfold Clocked.run
  rw [← hdepth]
  exact h.walk (h.nested _) hst

end Correspondence

end Clocked

end TurtleScript
