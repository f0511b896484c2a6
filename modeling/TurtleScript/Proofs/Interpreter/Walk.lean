import TurtleScript.Program

/-!
How the cursor moves over the tokens that lie ahead of it. A walk reads the tokens only through
`ahead`, so what a stretch of a script does can be proved from the stretch itself, wherever it
stands in the tokens.
-/

namespace TurtleScript

universe u

namespace Keyword

/-- The token that spells a keyword. -/
def token (k : Keyword) : Token := ⟨k.spelling⟩

theorem eq_of_ofText? {text : String} {k : Keyword} (h : ofText? text = some k) :
    k.spelling = text := by
  have hfound := List.find?_some h
  simpa using hfound

@[simp]
theorem role_token (k : Keyword) : k.token.role = .keyword k := by
  cases k <;> decide

end Keyword

namespace Token

@[simp]
theorem role_opening : Token.opening.role = .opening := by decide

@[simp]
theorem role_closing : Token.closing.role = .closing := by decide

/-- Each role other than that of a name belongs to a single token. -/
theorem role_eq_opening_iff {t : Token} : t.role = .opening ↔ t = .opening := by
  constructor
  · intro h
    unfold role at h
    split at h
    · assumption
    · split at h
      · cases h
      · split at h <;> cases h
  · rintro rfl
    simp

theorem role_eq_closing_iff {t : Token} : t.role = .closing ↔ t = .closing := by
  constructor
  · intro h
    unfold role at h
    split at h
    · cases h
    · split at h
      · assumption
      · split at h <;> cases h
  · rintro rfl
    simp

theorem role_eq_keyword_iff {t : Token} {k : Keyword} :
    t.role = .keyword k ↔ t = k.token := by
  constructor
  · intro h
    unfold role at h
    split at h
    · cases h
    · split at h
      · cases h
      · split at h
        · rename_i found
          cases h
          cases t with
          | mk text => simp [Keyword.token, Keyword.eq_of_ofText? found]
        · cases h
  · rintro rfl
    simp

theorem role_eq_name_iff {t : Token} : t.role = .name ↔ t.isReserved = false := by
  simp [isReserved]

/-- No number is written like a bracket or a keyword. -/
theorem role_of_finite {t : Token} {x : Float} (h : Number.finite? t.text = some x) :
    t.role = .name := by
  have hliteral : Number.literal? t.text ≠ none := by
    intro hnone
    simp [Number.finite?, Number.read?, hnone] at h
  cases hrole : t.role with
  | name => rfl
  | opening =>
      rw [role_eq_opening_iff.mp hrole] at hliteral
      exact absurd (by decide) hliteral
  | closing =>
      rw [role_eq_closing_iff.mp hrole] at hliteral
      exact absurd (by decide) hliteral
  | keyword k =>
      rw [role_eq_keyword_iff.mp hrole] at hliteral
      exact absurd (by cases k <;> decide) hliteral

end Token

/-- A definition is refused for some reason, or adds a procedure under a free name. -/
theorem Session.define_cases {σ : Type u} (s : Session σ) (table : CommandTable) (name : Token)
    (body : Nat) :
    (∃ reason, s.define table name body = s.skip reason) ∨
      (table.find? name.text = none ∧ name.isReserved = false ∧
        s.procedures.find? name.text = none ∧
        s.define table name body =
          { s with procedures := ⟨(name.text, body) :: s.procedures.bodies⟩ }) := by
  unfold Session.define Procedures.define
  by_cases htable : table.contains name.text
  · exact Or.inl ⟨.shadowsPrimitive name.text, by simp [htable]⟩
  · by_cases hreserved : name.isReserved
    · exact Or.inl ⟨.reservedName name.text, by simp [htable, hreserved]⟩
    · by_cases hprocedures : s.procedures.contains name.text
      · exact Or.inl ⟨.redefined name.text, by simp [htable, hreserved, hprocedures]⟩
      · refine Or.inr ⟨?_, ?_, ?_, ?_⟩
        · simpa [CommandTable.contains] using htable
        · simpa using hreserved
        · simpa [Procedures.contains] using hprocedures
        · simp [htable, hreserved, hprocedures]

/-- A definition notes a reason or touches nothing but the procedures. -/
theorem Session.define_elim {σ : Type u} {P : Session σ → Prop} {s : Session σ}
    {table : CommandTable} {name : Token} {body : Nat} (hskip : ∀ reason, P (s.skip reason))
    (hadd : ∀ procedures, P { s with procedures := procedures }) :
    P (s.define table name body) := by
  rcases s.define_cases table name body with ⟨reason, hrefused⟩ | ⟨-, -, -, hadded⟩
  · rw [hrefused]
    exact hskip reason
  · rw [hadded]
    exact hadd _

namespace Interpreter

variable {σ : Type u} {I : Interpreter σ} {inner : Option (Runner σ)} {frame : Frame}
  {index : Nat} {defining : Bool} {s : Session σ}

/-- The tokens from an index on. -/
def ahead (I : Interpreter σ) (index : Nat) : List Token :=
  I.tokens.toList.drop index

theorem ahead_eq_nil_iff : I.ahead index = [] ↔ I.tokens.size ≤ index := by
  simp [ahead]

theorem getElem?_add (k : Nat) : I.tokens[index + k]? = (I.ahead index)[k]? := by
  simp [ahead]

theorem ahead_of_append {stretch rest : List Token}
    (h : I.ahead index = stretch ++ rest) : I.ahead (index + stretch.length) = rest := by
  have hdrop : I.ahead (index + stretch.length) = (I.ahead index).drop stretch.length := by
    simp [ahead]
  rw [hdrop, h, List.drop_left]

theorem ahead_of_cons {t : Token} {ts : List Token} (h : I.ahead index = t :: ts) :
    I.ahead (index + 1) = ts := by
  have happend : I.ahead index = [t] ++ ts := h
  exact ahead_of_append happend

theorem lt_size_of_ahead_cons {t : Token} {ts : List Token} (h : I.ahead index = t :: ts) :
    index < I.tokens.size := by
  apply Nat.lt_of_not_le
  intro hle
  rw [ahead_eq_nil_iff.mpr hle] at h
  cases h

theorem ahead_cons_iff {t : Token} :
    (∃ ts, I.ahead index = t :: ts) ↔ I.tokens[index]? = some t := by
  constructor
  · rintro ⟨ts, h⟩
    have hget : I.tokens[index + 0]? = (I.ahead index)[0]? := getElem?_add 0
    simpa [h] using hget
  · intro h
    have hlt : index < I.tokens.toList.length := by
      simpa using (Array.getElem?_eq_some_iff.mp h).1
    have hget : I.tokens.toList[index] = t := by
      simpa using (Array.getElem?_eq_some_iff.mp h).2
    refine ⟨I.tokens.toList.drop (index + 1), ?_⟩
    rw [ahead, List.drop_eq_getElem_cons hlt, hget]

/-- How nested frames are run from a frame in which `room` more may be opened. -/
def below (I : Interpreter σ) : (room : Nat) → Option (Runner σ)
  | 0 => none
  | room + 1 => some (I.runWithin room)

theorem runWithin_eq (room start : Nat) :
    I.runWithin room frame start s = I.walk (I.below room) frame start false s := by
  cases room <;> rfl

/-- Past the last token a frame ends without doing anything. -/
theorem walk_of_size_le (h : I.tokens.size ≤ index) :
    I.walk inner frame index defining s = (I.tokens.size, s) := by
  rw [walk, dif_neg (by omega)]

/-- Without steps left a frame ends at once, wherever its cursor stands. -/
theorem walk_of_exhausted (hlt : index < I.tokens.size) (h : I.exhausted s = true) :
    I.walk inner frame index defining s = (I.tokens.size, s.cut) := by
  rw [walk, dif_pos hlt, if_pos h]

/-- A walk takes one turn with the token under its cursor. -/
theorem walk_of_ahead_cons {t : Token} {ts : List Token} (h : I.ahead index = t :: ts)
    (hs : I.exhausted s = false) :
    I.walk inner frame index defining s =
      match I.turn inner frame index t defining s with
      | .halt s => (index, s)
      | .advance consumed defining s =>
          I.walk inner frame (index + 1 + consumed) defining s := by
  have hlt := lt_size_of_ahead_cons h
  have hget : I.tokens[index] = t := by
    have hsome := ahead_cons_iff.mp ⟨ts, h⟩
    rw [Array.getElem?_eq_getElem hlt] at hsome
    exact Option.some.inj hsome
  have hwalk := walk.eq_def I inner frame index defining s
  rw [dif_pos hlt, if_neg (by simp [hs]), hget] at hwalk
  exact hwalk

/-- A cursor only moves forward. -/
theorem le_walk (I : Interpreter σ) (inner : Option (Runner σ)) (frame : Frame) (index : Nat)
    (defining : Bool) (s : Session σ) :
    min index I.tokens.size ≤ (I.walk inner frame index defining s).1 := by
  fun_induction walk I inner frame index defining s with
  | case1 index defining s hlt hexhausted => exact Nat.min_le_right _ _
  | case2 index defining s hlt hrunning next hturn => exact Nat.min_le_left _ _
  | case3 index defining s hlt hrunning consumed defining' next hturn ih => omega
  | case4 index defining s hlt => exact Nat.min_le_right _ _

/-- The script itself never stops before the tokens run out. -/
theorem walk_top : (I.walk inner .top index defining s).1 = I.tokens.size := by
  fun_induction walk I inner .top index defining s with
  | case1 => rfl
  | case2 index defining s hlt hrunning next hturn =>
      revert hturn
      unfold turn active
      grind [Frame.isNested]
  | case3 index defining s hlt hrunning consumed defining' next hturn ih => exact ih
  | case4 => rfl

theorem passes_of_exhausted {body count last : Nat} (h : I.exhausted s = true) :
    I.passes inner body (count + 1) last s = (I.tokens.size, s.cut) := by
  rw [passes, if_pos h]

theorem passes_of_running {body count last : Nat} (h : I.exhausted s = false) :
    I.passes inner body (count + 1) last s =
      match enter inner .opening .loop body s.tick with
      | (some stop, s) => I.passes inner body count stop s
      | (none, s) => (Bracket.close I.tokens body, s) := by
  have hpasses := passes.eq_def I inner body (count + 1) last s
  simp only [h, Bool.false_eq_true, if_false] at hpasses
  exact hpasses

/-- The session after the count of a loop has been read. -/
def counted (word : Token) (s : Session σ) : Session σ :=
  if (Integer.leading? word.text).isNone then s.skip (.badCount word.text) else s

theorem repetition_of_none (h : I.tokens[index + 1]? = none) :
    I.repetition inner index s = (1, s.skip .missingBody) := by
  simp [repetition, h]

theorem repetition_of_no_body {word : Token} (hword : I.tokens[index + 1]? = some word)
    (hopening : I.tokens[index + 2]? ≠ some .opening) :
    I.repetition inner index s = (1, (counted word s).skip .missingBody) := by
  simp [repetition, hword, hopening, counted]

theorem repetition_of_body {word : Token} (hword : I.tokens[index + 1]? = some word)
    (hopening : I.tokens[index + 2]? = some .opening) :
    I.repetition inner index s =
      let (last, t) := I.passes inner (index + 3) ((Integer.leading? word.text).getD 0).toNat
        (Bracket.close I.tokens (index + 3)) (counted word s)
      (last - index, t) := by
  simp [repetition, hword, hopening, counted]

/-- Tokens of a definition that is being stepped over do nothing, up to its `end`. -/
theorem walk_defining {stretch rest : List Token} (h : I.ahead index = stretch ++ rest)
    (hend : ∀ t ∈ stretch, t ≠ Keyword.finish.token) (hs : I.exhausted s = false) :
    I.walk inner frame index true s =
      I.walk inner frame (index + stretch.length) true s := by
  induction stretch generalizing index with
  | nil => rfl
  | cons t ts ih =>
      have hrole : t.role ≠ .keyword .finish := by
        rw [Ne, Token.role_eq_keyword_iff]
        exact hend t (by simp)
      have hnext : I.ahead (index + 1) = ts ++ rest := ahead_of_cons h
      have hturn : I.turn inner frame index t true s = .advance 0 true s := by
        simp [turn, hrole]
      rw [walk_of_ahead_cons h hs, hturn, List.length_cons]
      simp only [Nat.add_zero]
      rw [ih hnext (fun x hx => hend x (by simp [hx]))]
      congr 1
      omega

end Interpreter

namespace Program

/-- The session in which a program has been run on a turtle that writes the commands down. -/
def session (p : Program) (table : CommandTable) (limits : Limits) : Session (Array Command) :=
  let I : Interpreter (Array Command) := ⟨p.tokens, table, limits, Array.push⟩
  (I.run .top 0 (.new #[])).2

theorem record_eq_session (p : Program) (table : CommandTable) (limits : Limits) :
    p.record table limits =
      ((p.session table limits).turtle, (p.session table limits).report) := rfl

end Program

end TurtleScript
