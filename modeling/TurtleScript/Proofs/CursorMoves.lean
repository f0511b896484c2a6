import TurtleScript.Proofs.StoppingPlace

/-!
How the text moves a cursor. What every move keeps holds where the cursor stops, so where a frame
stops can be proved from its single moves; and few tokens move a cursor past a bracket or a keyword
that stands before it.
-/

namespace TurtleScript

namespace StoppingPlace

open Interpreter (passCount)

variable {tokens : Array Token} {table : CommandTable} {inner : Option (Nat → Nat)}
  {frame : Frame} {index consumed : Nat} {token word : Token} {defining defining' : Bool}

/-- What every move of a cursor keeps holds where the cursor stops. -/
theorem stopFrom_elim {P : Nat → Bool → Prop} {Q : Nat → Prop}
    (hmove : ∀ index token defining consumed defining', P index defining →
      tokens[index]? = some token →
      move tokens table inner frame index token defining = some (consumed, defining') →
      P (index + 1 + consumed) defining')
    (hhalt : ∀ index token defining, P index defining → tokens[index]? = some token →
      move tokens table inner frame index token defining = none → Q index)
    (hover : ∀ index defining, P index defining → tokens.size ≤ index → Q tokens.size)
    {start : Nat} (hstart : P start defining) :
    Q (stopFrom tokens table inner frame start defining) := by
  fun_induction stopFrom tokens table inner frame start defining with
  | case1 index defining hlt hstays =>
      exact hhalt index _ defining hstart (Array.getElem?_eq_getElem hlt) hstays
  | case2 index defining hlt consumed defining' hmoves ih =>
      exact ih (hmove index _ defining consumed defining' hstart (Array.getElem?_eq_getElem hlt)
        hmoves)
  | case3 index defining hlt => exact hover index defining hstart (Nat.le_of_not_lt hlt)

theorem stop_le_size {room start : Nat} :
    stop tokens table room frame start ≤ tokens.size := by
  apply stopFrom_elim (P := fun _ _ => True) (Q := (· ≤ tokens.size))
  · exact fun _ _ _ _ _ _ _ _ => trivial
  · intro index token defining _ htoken _
    exact Nat.le_of_lt (Array.getElem?_eq_some_iff.mp htoken).1
  · exact fun _ _ _ _ => Nat.le_refl _
  · trivial

theorem le_stopFrom {start : Nat} (h : start ≤ tokens.size) :
    start ≤ stopFrom tokens table inner frame start defining := by
  apply stopFrom_elim (P := fun index _ => start ≤ index) (Q := (start ≤ ·))
  · intro index token _ consumed _ hfirst _ _
    omega
  · exact fun _ _ _ hfirst _ _ => hfirst
  · exact fun _ _ _ _ => h
  · exact Nat.le_refl start

theorem loopInput_of_no_body (inner : Option (Nat → Nat))
    (h : tokens[index + 2]? ≠ some .opening) :
    loopInput tokens inner index = 1 := by
  unfold loopInput
  split
  · rw [if_neg h]
  · rfl

theorem loopInput_of_body (inner : Option (Nat → Nat)) (hword : tokens[index + 1]? = some word)
    (hopening : tokens[index + 2]? = some .opening) :
    loopInput tokens inner index = loopEnd tokens inner index word - index := by
  simp only [loopInput, hword, if_pos hopening]

/-- A loop that makes no pass ends at the bracket that closes it. -/
theorem loopEnd_of_no_pass (h : passCount word = 0 ∨ inner = none) :
    loopEnd tokens inner index word = Bracket.close tokens (index + 3) := by
  unfold loopEnd
  rcases h with hcount | rfl
  · rw [hcount]
  · cases passCount word <;> rfl

theorem loopEnd_of_pass {stop : Nat → Nat} (h : passCount word ≠ 0) :
    loopEnd tokens (some stop) index word = stop (index + 3) := by
  obtain ⟨count, hcount⟩ := Nat.exists_eq_succ_of_ne_zero h
  unfold loopEnd
  rw [hcount]

/-- The input of a name is at most one token, which is none that means anything by itself. -/
theorem nameInput_cases (tokens : Array Token) (table : CommandTable) (index : Nat)
    (name : String) :
    nameInput tokens table index name = 0 ∨
      nameInput tokens table index name = 1 ∧
        ∃ argument, tokens[index + 1]? = some argument ∧ argument.role = .name := by
  unfold nameInput
  split
  · rename_i argument haction hargument
    split
    · rename_i hfinite
      obtain ⟨x, hx⟩ := Option.isSome_iff_exists.mp hfinite
      exact Or.inr ⟨rfl, argument, hargument, Token.role_of_finite hx⟩
    · exact Or.inl rfl
  · exact Or.inl rfl

/-- Only `to` makes the cursor step over tokens. -/
theorem role_of_move_defining
    (h : move tokens table inner frame index token false = some (consumed, true)) :
    token.role = .keyword .define := by
  unfold move at h
  cases hrole : token.role with
  | opening => simp [hrole] at h
  | closing => simp [hrole] at h
  | name => simp [hrole] at h
  | keyword k => cases k <;> simp [hrole] at h ⊢

/-- A frame halts at `end`, and one that runs a loop body also at a closing bracket. -/
theorem role_of_halt (h : move tokens table inner frame index token defining = none) :
    token.role = .keyword .finish ∨ token.role = .closing ∧ frame = .loop := by
  unfold move at h
  split at h
  · cases h
  · cases hrole : token.role with
    | opening => simp [hrole] at h
    | closing => simpa [hrole] using h
    | name => simp [hrole] at h
    | keyword k => cases k <;> simp [hrole] at h ⊢

section Ahead

variable {last : Nat} {closer : Token}

theorem nameInput_le (hindex : index < last) (hcloser : tokens[last]? = some closer)
    (hrole : closer.role ≠ .name) (name : String) :
    index + 1 + nameInput tokens table index name ≤ last := by
  rcases nameInput_cases tokens table index name with
    hnone | ⟨hone, argument, hargument, hname⟩
  · omega
  · have hne : index + 1 ≠ last := by
      rintro rfl
      rw [hcloser] at hargument
      cases hargument
      exact hrole hname
    omega

theorem loopInput_le (hindex : index + 1 < last)
    (hloop : ∀ word, tokens[index + 1]? = some word → tokens[index + 2]? = some .opening →
      loopEnd tokens inner index word < last) :
    index + 1 + loopInput tokens inner index ≤ last := by
  by_cases hopening : tokens[index + 2]? = some .opening
  · have hroom : index + 1 < tokens.size := by
      have hlt := (Array.getElem?_eq_some_iff.mp hopening).1
      omega
    have hword := Array.getElem?_eq_getElem hroom
    have hends := hloop _ hword hopening
    rw [loopInput_of_body inner hword hopening]
    omega
  · rw [loopInput_of_no_body inner hopening]
    omega

/-- A cursor does not move past a bracket or a keyword that lies ahead of it, unless the token just
before takes it as its input, or a loop ends behind it. -/
theorem move_le (hindex : index < last) (hcloser : tokens[last]? = some closer)
    (hrole : closer.role ≠ .name)
    (hinput : index + 1 = last → token.role ≠ .keyword .background ∧
      token.role ≠ .keyword .repetition ∧
      (last + 1 < tokens.size → token.role ≠ .keyword .define))
    (hloop : token.role = .keyword .repetition → ∀ word, tokens[index + 1]? = some word →
      tokens[index + 2]? = some .opening → loopEnd tokens inner index word < last)
    (hmove : move tokens table inner frame index token defining = some (consumed, defining')) :
    index + 1 + consumed ≤ last := by
  unfold move at hmove
  split at hmove
  · cases hmove
    exact hindex
  · cases hkind : token.role with
    | opening => grind
    | closing => grind
    | name =>
        simp only [hkind] at hmove
        cases hmove
        exact nameInput_le hindex hcloser hrole token.text
    | keyword k =>
        cases k with
        | finish => grind
        | save => grind
        | define => grind
        | background => grind
        | repetition =>
            have hnext : index + 1 ≠ last := fun heq => (hinput heq).2.1 hkind
            simp only [hkind] at hmove
            cases hmove
            exact loopInput_le (by omega) (hloop hkind)

end Ahead

end StoppingPlace

end TurtleScript
