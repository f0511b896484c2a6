import TurtleScript.Proofs.Brackets
import TurtleScript.Proofs.CursorMoves

/-!
The last token of a loop. It is found in two ways: a loop that makes no pass counts brackets, and a
loop that makes passes ends where they stop, at the first closing bracket that a pass meets. Unless
a keyword takes a closing bracket for its input or a definition steps over it, no pass stops behind
the bracket that counting finds, since each loop inside the body ends within it. Whether a pass
stops before that bracket depends on the opening brackets it meets: counting pairs all of them, but
a pass only those of loops. While it meets no others, the bracket that closes the body is the same
from every place where the cursor stands; after the first other one it lies nearer, and so does the
place where the pass stops. The two ways agree just if a pass meets no opening bracket but those of
loops.
-/

namespace TurtleScript

universe u

namespace LoopEnd

open Interpreter (Runner passCount counted)
open Registry (sound_of_reached)
open StoppingPlace

variable {tokens : Array Token} {table : CommandTable} {inner : Option (Nat → Nat)}
  {first last index : Nat}

/-- A stretch in which no keyword takes a cursor past a closing bracket: no definition begins in it,
and no bracket that closes a loop is the colour of a background or the count of a loop. -/
structure Orderly (tokens : Array Token) (first last : Nat) : Prop where
  no_definition : ∀ k, first ≤ k → k < last → tokens[k]? ≠ some Keyword.define.token
  no_closing_input : ∀ k, first ≤ k → k < last →
    tokens[k]? = some Keyword.background.token ∨ tokens[k]? = some Keyword.repetition.token →
    tokens[k + 1]? ≠ some .closing

/-- A stretch as loop bodies are usually written: no definition begins or ends in it, and no bracket
is the colour of a background or the count of a loop. -/
structure Plain (tokens : Array Token) (first last : Nat) : Prop extends
    Orderly tokens first last where
  no_end : ∀ k, first ≤ k → k < last → tokens[k]? ≠ some Keyword.finish.token
  no_opening_input : ∀ k, first ≤ k → k < last →
    tokens[k]? = some Keyword.background.token ∨ tokens[k]? = some Keyword.repetition.token →
    tokens[k + 1]? ≠ some .opening

theorem Orderly.mono {first' last' : Nat} (h : Orderly tokens first last)
    (hfirst : first ≤ first') (hlast : last' ≤ last) : Orderly tokens first' last' where
  no_definition k hk hlt :=
    h.no_definition k (Nat.le_trans hfirst hk) (Nat.lt_of_lt_of_le hlt hlast)
  no_closing_input k hk hlt :=
    h.no_closing_input k (Nat.le_trans hfirst hk) (Nat.lt_of_lt_of_le hlt hlast)

theorem Plain.mono {first' last' : Nat} (h : Plain tokens first last)
    (hfirst : first ≤ first') (hlast : last' ≤ last) : Plain tokens first' last' where
  toOrderly := h.toOrderly.mono hfirst hlast
  no_end k hk hlt := h.no_end k (Nat.le_trans hfirst hk) (Nat.lt_of_lt_of_le hlt hlast)
  no_opening_input k hk hlt :=
    h.no_opening_input k (Nat.le_trans hfirst hk) (Nat.lt_of_lt_of_le hlt hlast)

theorem plain_iff : Plain tokens first last ↔ ∀ k < last, first ≤ k →
    tokens[k]? ≠ some Keyword.define.token ∧ tokens[k]? ≠ some Keyword.finish.token ∧
      (tokens[k]? = some Keyword.background.token ∨ tokens[k]? = some Keyword.repetition.token →
        tokens[k + 1]? ≠ some .closing ∧ tokens[k + 1]? ≠ some .opening) := by
  constructor
  · intro h k hlt hk
    exact ⟨h.no_definition k hk hlt, h.no_end k hk hlt, fun hinput =>
      ⟨h.no_closing_input k hk hlt hinput, h.no_opening_input k hk hlt hinput⟩⟩
  · intro h
    refine ⟨⟨?_, ?_⟩, ?_, ?_⟩
    · exact fun k hk hlt => (h k hlt hk).1
    · exact fun k hk hlt hinput => ((h k hlt hk).2.2 hinput).1
    · exact fun k hk hlt => (h k hlt hk).2.1
    · exact fun k hk hlt hinput => ((h k hlt hk).2.2 hinput).2

instance : Decidable (Plain tokens first last) :=
  decidable_of_iff' _ plain_iff

/-- A pass halts at a closing bracket, so where it moves on, it stands before it. -/
theorem lt_of_advance {consumed : Nat} {token : Token} {defining : Bool}
    (hclosing : tokens[last]? = some .closing) (hle : index ≤ last)
    (htoken : tokens[index]? = some token)
    (hmove : move tokens table inner .loop index token false = some (consumed, defining)) :
    index < last := by
  apply Nat.lt_of_le_of_ne hle
  rintro rfl
  rw [hclosing] at htoken
  cases htoken
  simp [move] at hmove

/-- No loop with an orderly body ends behind the bracket that closes it. -/
def EndsWithin (tokens : Array Token) (inner : Option (Nat → Nat)) : Prop :=
  ∀ index word, Bracket.close tokens (index + 3) < tokens.size →
    Orderly tokens (index + 3) (Bracket.close tokens (index + 3)) →
    loopEnd tokens inner index word ≤ Bracket.close tokens (index + 3)

/-- Inside an orderly body the cursor moves on towards the bracket that closes it. -/
theorem Orderly.advance_le {start index consumed : Nat} {token : Token} {defining : Bool}
    (h : Orderly tokens start (Bracket.close tokens start)) (hwithin : EndsWithin tokens inner)
    (hclose : Bracket.close tokens start < tokens.size) (hfirst : start ≤ index)
    (hlast : index < Bracket.close tokens start) (htoken : tokens[index]? = some token)
    (hmove : move tokens table inner .loop index token false = some (consumed, defining)) :
    index + 1 + consumed ≤ Bracket.close tokens start ∧ defining = false := by
  have hclosing : tokens[Bracket.close tokens start]? = some .closing :=
    Bracket.closing_of_closeFrom_lt hclose
  have hdefine : token.role ≠ .keyword .define := by
    intro hrole
    rw [Token.role_eq_keyword_iff.mp hrole] at htoken
    exact h.no_definition index hfirst hlast htoken
  have hinput (hrole : token.role = .keyword .background ∨ token.role = .keyword .repetition) :
      index + 1 ≠ Bracket.close tokens start := by
    intro heq
    rw [Token.role_eq_keyword_iff, Token.role_eq_keyword_iff] at hrole
    refine h.no_closing_input index hfirst hlast ?_ (heq ▸ hclosing)
    rw [htoken]
    exact hrole.imp (congrArg some) (congrArg some)
  refine ⟨?_, ?_⟩
  · refine move_le hlast hclosing (by simp) ?_ ?_ hmove
    · intro heq
      exact ⟨fun hrole => hinput (Or.inl hrole) heq, fun hrole => hinput (Or.inr hrole) heq,
        fun _ => hdefine⟩
    · intro hrole word hword hopening
      -- The bracket at `index + 2` opens a body inside the one that is passed over.
      have hnext : index + 1 ≠ Bracket.close tokens start := hinput (Or.inr hrole)
      have hopens : index + 2 ≠ Bracket.close tokens start := by
        intro heq
        rw [heq, hclosing] at hopening
        exact absurd hopening (by decide)
      have hinside : Bracket.close tokens (index + 3) < Bracket.close tokens start :=
        Bracket.close_lt_closeFrom (by omega) (by unfold Bracket.close at *; omega) hclose hopening
      have hbody := hwithin index word (Nat.lt_trans hinside hclose)
        (h.mono (by omega) (Nat.le_of_lt hinside))
      omega
  · cases defining with
    | false => rfl
    | true => exact absurd (role_of_move_defining hmove) hdefine

/-- A pass over an orderly body does not stop behind the bracket that closes it. -/
theorem stopFrom_le_close (hwithin : EndsWithin tokens inner) {start : Nat}
    (hclose : Bracket.close tokens start < tokens.size)
    (horderly : Orderly tokens start (Bracket.close tokens start)) :
    stopFrom tokens table inner .loop start false ≤ Bracket.close tokens start := by
  have hclosing : tokens[Bracket.close tokens start]? = some .closing :=
    Bracket.closing_of_closeFrom_lt hclose
  have hstart : start ≤ Bracket.close tokens start := Bracket.le_closeFrom_of_lt hclose
  apply stopFrom_elim (P := fun index defining =>
    start ≤ index ∧ index ≤ Bracket.close tokens start ∧ defining = false)
    (Q := (· ≤ Bracket.close tokens start))
  · rintro index token _ consumed defining ⟨hfirst, hlast, rfl⟩ htoken hmove
    have hlt : index < Bracket.close tokens start := lt_of_advance hclosing hlast htoken hmove
    exact ⟨by omega, horderly.advance_le hwithin hclose hfirst hlt htoken hmove⟩
  · rintro index token defining ⟨_, hlast, _⟩ _ _
    exact hlast
  · rintro index defining ⟨_, hlast, _⟩ hsize
    omega
  · exact ⟨Nat.le_refl start, hstart, rfl⟩

/-- At every depth, no loop with an orderly body ends behind the bracket that closes it. -/
theorem endsWithin_bodyStop (room : Nat) : EndsWithin tokens (bodyStop tokens table room) := by
  induction room with
  | zero =>
      intro index word _ _
      exact Nat.le_of_eq (loopEnd_of_no_pass (Or.inr rfl))
  | succ room ih =>
      intro index word hclose horderly
      by_cases hcount : passCount word = 0
      · exact Nat.le_of_eq (loopEnd_of_no_pass (Or.inl hcount))
      · rw [bodyStop, loopEnd_of_pass hcount]
        exact stopFrom_le_close ih hclose horderly

theorem le_close_of_body (h : tokens[index + 2]? = some .opening) :
    index + 3 ≤ Bracket.close tokens (index + 3) :=
  Bracket.le_closeFrom (Array.getElem?_eq_some_iff.mp h).1

/-- No loop ends before its body. -/
theorem le_loopEnd {room : Nat} {word : Token} (h : tokens[index + 2]? = some .opening) :
    index + 3 ≤ loopEnd tokens (bodyStop tokens table room) index word := by
  by_cases hcount : passCount word = 0
  · rw [loopEnd_of_no_pass (Or.inl hcount)]
    exact le_close_of_body h
  · cases room with
    | zero =>
        rw [bodyStop, loopEnd_of_no_pass (Or.inr rfl)]
        exact le_close_of_body h
    | succ room =>
        rw [bodyStop, loopEnd_of_pass hcount]
        exact le_stopFrom (Array.getElem?_eq_some_iff.mp h).1

/-- Read on from an index up to `last`, as a pass reads them inside which `room` more frames may be
opened, the tokens have no opening bracket but those of loops. The body of a loop is read with room
for one frame less; it is not read if the loop makes no pass or lies too deep to make one. -/
inductive OpensLoopsOnly (tokens : Array Token) : (room last index : Nat) → Prop
  | done {room last index : Nat} (h : last ≤ index) : OpensLoopsOnly tokens room last index
  | word {room last index : Nat} {token : Token} (htoken : tokens[index]? = some token)
      (hrole : token.role = .name ∨ token.role = .keyword .save)
      (h : OpensLoopsOnly tokens room last (index + 1)) : OpensLoopsOnly tokens room last index
  | colour {room last index : Nat} (htoken : tokens[index]? = some Keyword.background.token)
      (h : OpensLoopsOnly tokens room last (index + 2)) : OpensLoopsOnly tokens room last index
  | count {room last index : Nat} (htoken : tokens[index]? = some Keyword.repetition.token)
      (hbody : tokens[index + 2]? ≠ some .opening)
      (h : OpensLoopsOnly tokens room last (index + 2)) : OpensLoopsOnly tokens room last index
  | idle {room last index : Nat} {word : Token}
      (htoken : tokens[index]? = some Keyword.repetition.token)
      (hword : tokens[index + 1]? = some word) (hbody : tokens[index + 2]? = some .opening)
      (hcount : passCount word = 0 ∨ room = 0)
      (h : OpensLoopsOnly tokens room last (Bracket.close tokens (index + 3) + 1)) :
      OpensLoopsOnly tokens room last index
  | loop {room last index : Nat} (htoken : tokens[index]? = some Keyword.repetition.token)
      (hbody : tokens[index + 2]? = some .opening)
      (hinside : OpensLoopsOnly tokens (room - 1) (Bracket.close tokens (index + 3)) (index + 3))
      (h : OpensLoopsOnly tokens room last (Bracket.close tokens (index + 3) + 1)) :
      OpensLoopsOnly tokens room last index

variable {room depth : Nat}

theorem closeFrom_of_role {token : Token} (htoken : tokens[index]? = some token)
    (hopening : token.role ≠ .opening) (hclosing : token.role ≠ .closing) :
    Bracket.closeFrom tokens depth index = Bracket.closeFrom tokens depth (index + 1) := by
  apply Bracket.closeFrom_of_ne htoken
  · rwa [Ne, ← Token.role_eq_opening_iff]
  · rwa [Ne, ← Token.role_eq_closing_iff]

theorem le_of_close (hclose : Bracket.close tokens index = last) (hsize : last < tokens.size) :
    index ≤ last := by
  rw [← hclose] at hsize ⊢
  exact Bracket.le_closeFrom_of_lt hsize

theorem closing_of_close (hclose : Bracket.close tokens index = last)
    (hsize : last < tokens.size) : tokens[last]? = some .closing := by
  rw [← hclose] at hsize ⊢
  exact Bracket.closing_of_closeFrom_lt hsize

/-- After the input of a keyword, the bracket that closes the body is the same. -/
theorem Plain.close_input (h : Plain tokens first last) (hfirst : first ≤ index)
    (hlast : index < last) (hsize : last < tokens.size) (hclose : Bracket.close tokens index = last)
    (htoken : tokens[index]? = some Keyword.background.token ∨
      tokens[index]? = some Keyword.repetition.token) :
    Bracket.close tokens (index + 2) = last := by
  have hinput : tokens[index + 1]? = some tokens[index + 1] :=
    Array.getElem?_eq_getElem (by omega)
  have hkeyword : Bracket.close tokens index = Bracket.close tokens (index + 1) := by
    rcases htoken with htoken | htoken <;>
      exact closeFrom_of_role htoken (by simp) (by simp)
  have hword : Bracket.close tokens (index + 1) = Bracket.close tokens (index + 2) := by
    apply Bracket.closeFrom_of_ne hinput
    · intro heq
      exact h.no_opening_input index hfirst hlast htoken (heq ▸ hinput)
    · intro heq
      exact h.no_closing_input index hfirst hlast htoken (heq ▸ hinput)
  rw [← hword, ← hkeyword, hclose]

/-- After a loop, the bracket that closes the body is the same, and the loop is closed before it. -/
theorem Plain.close_loop (h : Plain tokens first last) (hfirst : first ≤ index)
    (hlast : index < last) (hsize : last < tokens.size) (hclose : Bracket.close tokens index = last)
    (htoken : tokens[index]? = some Keyword.repetition.token)
    (hbody : tokens[index + 2]? = some .opening) :
    Bracket.close tokens (index + 3) < last ∧
      Bracket.close tokens (Bracket.close tokens (index + 3) + 1) = last := by
  have hinput : Bracket.close tokens (index + 2) = last :=
    h.close_input hfirst hlast hsize hclose (Or.inr htoken)
  have hafter : Bracket.close tokens (Bracket.close tokens (index + 3) + 1) = last :=
    (Bracket.closeFrom_of_body hbody rfl).symm.trans hinput
  refine ⟨?_, hafter⟩
  have hle : Bracket.close tokens (index + 3) + 1 ≤ last := le_of_close hafter hsize
  exact hle

/-- The cursor goes on after a loop that ends at the bracket that closes it. -/
theorem after_loop {inner : Option (Nat → Nat)} {word : Token}
    (hword : tokens[index + 1]? = some word) (hbody : tokens[index + 2]? = some .opening)
    (hends : loopEnd tokens inner index word = Bracket.close tokens (index + 3)) :
    index + 1 + loopInput tokens inner index = Bracket.close tokens (index + 3) + 1 := by
  have hbelow := le_close_of_body hbody
  rw [loopInput_of_body inner hword hbody, hends]
  omega

section Readings

variable {token word : Token}

theorem opensLoopsOnly_word (hlast : index < last) (htoken : tokens[index]? = some token)
    (hrole : token.role = .name ∨ token.role = .keyword .save) :
    OpensLoopsOnly tokens room last index ↔ OpensLoopsOnly tokens room last (index + 1) := by
  refine ⟨?_, .word htoken hrole⟩
  intro h
  cases h with
  | done h => exact absurd hlast (Nat.not_lt.mpr h)
  | word _ _ h => exact h
  | colour hother _ | count hother _ _ | idle hother _ _ _ _ | loop hother _ _ _ =>
      rw [htoken] at hother
      cases hother
      simp at hrole

theorem opensLoopsOnly_colour (hlast : index < last)
    (htoken : tokens[index]? = some Keyword.background.token) :
    OpensLoopsOnly tokens room last index ↔ OpensLoopsOnly tokens room last (index + 2) := by
  refine ⟨?_, .colour htoken⟩
  intro h
  cases h with
  | done h => exact absurd hlast (Nat.not_lt.mpr h)
  | word hother hrole _ =>
      rw [htoken] at hother
      cases hother
      simp at hrole
  | colour _ h => exact h
  | count hother _ _ | idle hother _ _ _ _ | loop hother _ _ _ =>
      rw [htoken] at hother
      exact absurd hother (by decide)

theorem opensLoopsOnly_count (hlast : index < last)
    (htoken : tokens[index]? = some Keyword.repetition.token)
    (hbody : tokens[index + 2]? ≠ some .opening) :
    OpensLoopsOnly tokens room last index ↔ OpensLoopsOnly tokens room last (index + 2) := by
  refine ⟨?_, .count htoken hbody⟩
  intro h
  cases h with
  | done h => exact absurd hlast (Nat.not_lt.mpr h)
  | word hother hrole _ =>
      rw [htoken] at hother
      cases hother
      simp at hrole
  | colour hother _ =>
      rw [htoken] at hother
      exact absurd hother (by decide)
  | count _ _ h => exact h
  | idle _ _ hopening _ _ | loop _ hopening _ _ => exact absurd hopening hbody

theorem opensLoopsOnly_loop (hlast : index < last)
    (htoken : tokens[index]? = some Keyword.repetition.token)
    (hword : tokens[index + 1]? = some word) (hbody : tokens[index + 2]? = some .opening) :
    OpensLoopsOnly tokens room last index ↔
      (passCount word = 0 ∨ room = 0 ∨
        OpensLoopsOnly tokens (room - 1) (Bracket.close tokens (index + 3)) (index + 3)) ∧
      OpensLoopsOnly tokens room last (Bracket.close tokens (index + 3) + 1) := by
  constructor
  · intro h
    cases h with
    | done h => exact absurd hlast (Nat.not_lt.mpr h)
    | word hother hrole _ =>
        rw [htoken] at hother
        cases hother
        simp at hrole
    | colour hother _ =>
        rw [htoken] at hother
        exact absurd hother (by decide)
    | count _ hopening _ => exact absurd hbody hopening
    | idle _ hother _ hcount h =>
        obtain rfl := Option.some.inj (hword.symm.trans hother)
        exact ⟨hcount.imp id Or.inl, h⟩
    | loop _ _ hinside h => exact ⟨Or.inr (Or.inr hinside), h⟩
  · rintro ⟨hcount | hdeep | hinside, h⟩
    · exact .idle htoken hword hbody (Or.inl hcount) h
    · exact .idle htoken hword hbody (Or.inr hdeep) h
    · exact .loop htoken hbody hinside h

theorem not_opensLoopsOnly_of_opening (hlast : index < last)
    (htoken : tokens[index]? = some .opening) : ¬ OpensLoopsOnly tokens room last index := by
  intro h
  cases h with
  | done h => exact absurd hlast (Nat.not_lt.mpr h)
  | word hother hrole _ =>
      rw [htoken] at hother
      cases hother
      simp at hrole
  | colour hother _ | count hother _ _ | idle hother _ _ _ _ | loop hother _ _ _ =>
      rw [htoken] at hother
      exact absurd hother (by decide)

/-- After a name and its input, the bracket that closes the body is the same, and the tokens are
read on as they were. -/
theorem after_name (table : CommandTable) (hlast : index < last) (hsize : last < tokens.size)
    (hclose : Bracket.close tokens index = last) (htoken : tokens[index]? = some token)
    (hrole : token.role = .name) :
    Bracket.close tokens (index + 1 + nameInput tokens table index token.text) = last ∧
      (OpensLoopsOnly tokens room last index ↔
        OpensLoopsOnly tokens room last
          (index + 1 + nameInput tokens table index token.text)) := by
  have hnext : Bracket.close tokens (index + 1) = last :=
    (closeFrom_of_role htoken (by simp [hrole]) (by simp [hrole])).symm.trans hclose
  have hreads : OpensLoopsOnly tokens room last index ↔
      OpensLoopsOnly tokens room last (index + 1) :=
    opensLoopsOnly_word hlast htoken (Or.inl hrole)
  rcases nameInput_cases tokens table index token.text with
    hnone | ⟨hone, argument, hargument, hname⟩
  · rw [hnone]
    exact ⟨hnext, hreads⟩
  · have hne : index + 1 ≠ last := by
      intro heq
      rw [heq, closing_of_close hclose hsize] at hargument
      cases hargument
      simp at hname
    rw [hone]
    refine ⟨?_, hreads.trans (opensLoopsOnly_word (by omega) hargument (Or.inl hname))⟩
    exact (closeFrom_of_role hargument (by simp [hname]) (by simp [hname])).symm.trans hnext

end Readings

/-- A loop with a plain body ends at the bracket that closes it just if it is not read, or opens
nothing but loops. -/
def EndsAtClose (tokens : Array Token) (room : Nat) (inner : Option (Nat → Nat)) : Prop :=
  ∀ index word, Bracket.close tokens (index + 3) < tokens.size →
    Plain tokens (index + 3) (Bracket.close tokens (index + 3)) →
    (loopEnd tokens inner index word = Bracket.close tokens (index + 3) ↔
      passCount word = 0 ∨ room = 0 ∨
        OpensLoopsOnly tokens (room - 1) (Bracket.close tokens (index + 3)) (index + 3))

/-- A pass that stands inside a plain body, on a place from which another bracket closes it, stops
before the bracket that closes the body. -/
theorem Plain.stopFrom_lt (h : Plain tokens first last) (hsize : last < tokens.size)
    (hfirst : first ≤ index) (hclose : Bracket.close tokens index < last) :
    stopFrom tokens table (bodyStop tokens table room) .loop index false < last := by
  have hplain : Plain tokens index (Bracket.close tokens index) :=
    h.mono hfirst (Nat.le_of_lt hclose)
  have hstop : stopFrom tokens table (bodyStop tokens table room) .loop index false ≤
      Bracket.close tokens index :=
    stopFrom_le_close (endsWithin_bodyStop room) (Nat.lt_trans hclose hsize) hplain.toOrderly
  exact Nat.lt_of_le_of_lt hstop hclose

/-- Where a pass moves on from a loop inside a plain body, either the loop has ended at its own
bracket and all is as it was, or the pass stops early. -/
theorem Plain.advance_loop (h : Plain tokens first last)
    (hinner : EndsAtClose tokens room (bodyStop tokens table room)) (hfirst : first ≤ index)
    (hlast : index < last) (hsize : last < tokens.size) (hclose : Bracket.close tokens index = last)
    (htoken : tokens[index]? = some Keyword.repetition.token)
    (hbody : tokens[index + 2]? = some .opening) :
    let next := index + 1 + loopInput tokens (bodyStop tokens table room) index
    Bracket.close tokens next = last ∧
        (OpensLoopsOnly tokens room last index ↔ OpensLoopsOnly tokens room last next) ∨
      stopFrom tokens table (bodyStop tokens table room) .loop next false < last ∧
        ¬ OpensLoopsOnly tokens room last index := by
  intro next
  have hword : tokens[index + 1]? = some tokens[index + 1] :=
    Array.getElem?_eq_getElem (by omega)
  obtain ⟨hinside, hafter⟩ := h.close_loop hfirst hlast hsize hclose htoken hbody
  have hplain : Plain tokens (index + 3) (Bracket.close tokens (index + 3)) :=
    h.mono (by omega) (Nat.le_of_lt hinside)
  have hbelow : Bracket.close tokens (index + 3) < tokens.size := Nat.lt_trans hinside hsize
  have hends := hinner index tokens[index + 1] hbelow hplain
  have hreads : OpensLoopsOnly tokens room last index ↔ _ :=
    opensLoopsOnly_loop hlast htoken hword hbody
  by_cases hend : loopEnd tokens (bodyStop tokens table room) index tokens[index + 1] =
      Bracket.close tokens (index + 3)
  · have hnext : next = Bracket.close tokens (index + 3) + 1 := after_loop hword hbody hend
    rw [hnext]
    exact Or.inl ⟨hafter, hreads.trans (and_iff_right (hends.mp hend))⟩
  · -- The loop has ended early, so its own bracket is still ahead of the pass around it.
    have hfrom : index + 3 ≤ loopEnd tokens (bodyStop tokens table room) index tokens[index + 1] :=
      le_loopEnd hbody
    have hwithin : EndsWithin tokens (bodyStop tokens table room) := endsWithin_bodyStop room
    have hupto := hwithin index tokens[index + 1] hbelow hplain.toOrderly
    have hnext : next =
        loopEnd tokens (bodyStop tokens table room) index tokens[index + 1] + 1 := by
      have hinput := loopInput_of_body (bodyStop tokens table room) hword hbody
      omega
    refine Or.inr ⟨?_, fun hopens => hend (hends.mpr (hreads.mp hopens).1)⟩
    apply h.stopFrom_lt hsize (by omega)
    have hstands : index + 3 ≤ next ∧ next ≤ Bracket.close tokens (index + 3) := by omega
    exact Nat.lt_of_le_of_lt (Bracket.close_le_close hstands.1 hstands.2) hinside

/-- Where a pass moves on inside a plain body, either the bracket that closes the body stays the same
and the tokens are read on as they were, or the pass stops before that bracket and the tokens are
not as they should be. -/
theorem Plain.advance {consumed : Nat} {token : Token} {defining : Bool}
    (h : Plain tokens first last) (hinner : EndsAtClose tokens room (bodyStop tokens table room))
    (hfirst : first ≤ index) (hlast : index < last) (hsize : last < tokens.size)
    (hclose : Bracket.close tokens index = last) (htoken : tokens[index]? = some token)
    (hmove : move tokens table (bodyStop tokens table room) .loop index token false =
      some (consumed, defining)) :
    defining = false ∧
      (Bracket.close tokens (index + 1 + consumed) = last ∧
          (OpensLoopsOnly tokens room last index ↔
            OpensLoopsOnly tokens room last (index + 1 + consumed)) ∨
        stopFrom tokens table (bodyStop tokens table room) .loop (index + 1 + consumed) false <
            last ∧
          ¬ OpensLoopsOnly tokens room last index) := by
  cases hrole : token.role with
  | opening =>
      simp only [move, hrole] at hmove
      cases hmove
      rw [Token.role_eq_opening_iff.mp hrole] at htoken
      refine ⟨rfl, Or.inr ⟨?_, not_opensLoopsOnly_of_opening hlast htoken⟩⟩
      apply h.stopFrom_lt hsize (by omega)
      rw [← hclose] at hlast hsize ⊢
      exact Bracket.close_lt_closeFrom (Nat.le_refl index) hlast hsize htoken
  | closing => simp [move, hrole] at hmove
  | name =>
      simp only [move, hrole] at hmove
      cases hmove
      exact ⟨rfl, Or.inl (after_name table hlast hsize hclose htoken hrole)⟩
  | keyword k =>
      have hkeyword : token = k.token := Token.role_eq_keyword_iff.mp hrole
      rw [hkeyword] at htoken
      cases k with
      | define => exact absurd htoken (h.no_definition index hfirst hlast)
      | finish => exact absurd htoken (h.no_end index hfirst hlast)
      | save =>
          simp only [move, hrole] at hmove
          cases hmove
          have hnext : Bracket.close tokens index = Bracket.close tokens (index + 1) :=
            closeFrom_of_role htoken (by simp) (by simp)
          exact ⟨rfl, Or.inl ⟨hnext.symm.trans hclose,
            opensLoopsOnly_word hlast htoken (Or.inr (by simp))⟩⟩
      | background =>
          simp only [move, hrole, if_pos (show index + 1 < tokens.size by omega)] at hmove
          cases hmove
          exact ⟨rfl, Or.inl ⟨h.close_input hfirst hlast hsize hclose (Or.inl htoken),
            opensLoopsOnly_colour hlast htoken⟩⟩
      | repetition =>
          simp only [move, hrole] at hmove
          cases hmove
          refine ⟨rfl, ?_⟩
          by_cases hbody : tokens[index + 2]? = some .opening
          · exact h.advance_loop hinner hfirst hlast hsize hclose htoken hbody
          · rw [loopInput_of_no_body _ hbody]
            exact Or.inl ⟨h.close_input hfirst hlast hsize hclose (Or.inr htoken),
              opensLoopsOnly_count hlast htoken hbody⟩

/-- A pass halts inside a plain body at the bracket that closes it. -/
theorem Plain.eq_of_halt {token : Token} (h : Plain tokens first last) (hfirst : first ≤ index)
    (hsize : last < tokens.size) (hclose : Bracket.close tokens index = last)
    (htoken : tokens[index]? = some token)
    (hhalt : move tokens table inner .loop index token false = none) : index = last := by
  rcases role_of_halt hhalt with hrole | ⟨hrole, -⟩
  · rw [Token.role_eq_keyword_iff.mp hrole] at htoken
    apply Nat.le_antisymm (le_of_close hclose hsize)
    apply Nat.le_of_not_lt
    exact fun hlast => h.no_end index hfirst hlast htoken
  · rw [Token.role_eq_closing_iff.mp hrole] at htoken
    exact (Bracket.closeFrom_zero_of_closing htoken).symm.trans hclose

/-- A pass over a plain body stops at the bracket that closes it just if the body opens nothing but
loops. -/
theorem Plain.stopFrom_eq_iff (h : Plain tokens first last)
    (hinner : EndsAtClose tokens room (bodyStop tokens table room)) (hsize : last < tokens.size)
    (hfirst : first ≤ index) (hclose : Bracket.close tokens index = last) :
    stopFrom tokens table (bodyStop tokens table room) .loop index false = last ↔
      OpensLoopsOnly tokens room last index := by
  induction hrest : last - index using Nat.strongRecOn generalizing index with
  | ind rest ih =>
      have hle : index ≤ last := le_of_close hclose hsize
      have hlt : index < tokens.size := Nat.lt_of_le_of_lt hle hsize
      have htoken : tokens[index]? = some tokens[index] := Array.getElem?_eq_getElem hlt
      rw [stopFrom_of_lt hlt]
      cases hmove : move tokens table (bodyStop tokens table room) .loop index tokens[index]
        false with
      | none =>
          have hhere : index = last := h.eq_of_halt hfirst hsize hclose htoken hmove
          exact iff_of_true hhere (.done (Nat.le_of_eq hhere.symm))
      | some next =>
          obtain ⟨consumed, defining⟩ := next
          have hlast : index < last :=
            lt_of_advance (closing_of_close hclose hsize) hle htoken hmove
          obtain ⟨rfl, ⟨hsame, hreads⟩ | ⟨hearly, hopens⟩⟩ :=
            h.advance hinner hfirst hlast hsize hclose htoken hmove
          · have hnext := ih _ (by omega) (by omega) hsame rfl
            exact hnext.trans hreads.symm
          · exact iff_of_false (Nat.ne_of_lt hearly) hopens

/-- At every depth, a loop with a plain body ends at the bracket that closes it just if it is not
read, or opens nothing but loops. -/
theorem endsAtClose_bodyStop (room : Nat) :
    EndsAtClose tokens room (bodyStop tokens table room) := by
  induction room with
  | zero =>
      intro index word _ _
      exact iff_of_true (loopEnd_of_no_pass (Or.inr rfl)) (Or.inr (Or.inl rfl))
  | succ room ih =>
      intro index word hclose hplain
      by_cases hcount : passCount word = 0
      · exact iff_of_true (loopEnd_of_no_pass (Or.inl hcount)) (Or.inl hcount)
      · rw [bodyStop, loopEnd_of_pass hcount]
        have hstop := hplain.stopFrom_eq_iff ih hclose (Nat.le_refl (index + 3)) rfl
        simpa [hcount] using hstop

section Loops

variable {σ : Type u} {I : Interpreter σ}

/-- Runs the loop whose keyword stands at an index, from a given depth on, and tells which token is
its last. -/
def repeatAt (I : Interpreter σ) (depth index : Nat) (s : Session σ) : Nat × Session σ :=
  let (consumed, t) := I.repetition (I.below (I.limits.depth - depth)) index s
  (index + consumed, t)

/-- A loop that makes no pass ends where the text says in every session. -/
theorem repetition_fst_of_no_pass {inner : Option (Runner σ)} {stops : Option (Nat → Nat)}
    {index : Nat} {s : Session σ}
    (h : ∀ word, I.tokens[index + 1]? = some word → I.tokens[index + 2]? = some .opening →
      passCount word = 0) :
    (I.repetition inner index s).1 = loopInput I.tokens stops index := by
  cases hword : I.tokens[index + 1]? with
  | none =>
      rw [Interpreter.repetition_of_none hword]
      simp only [loopInput, hword]
  | some word =>
      by_cases hbody : I.tokens[index + 2]? = some .opening
      · have hcount := h word hword hbody
        rw [loopInput_of_body stops hword hbody, loopEnd_of_no_pass (Or.inl hcount),
          Interpreter.repetition_of_body hword hbody]
        unfold passCount at hcount
        rw [hcount]
        rfl
      · rw [Interpreter.repetition_of_no_body hword hbody, loopInput_of_no_body stops hbody]

/-- A loop that makes a pass is cut short if no steps are left. -/
theorem repetition_cut (inner : Option (Runner σ)) {index : Nat} {s : Session σ} {word : Token}
    (hs : I.exhausted s = true) (hword : I.tokens[index + 1]? = some word)
    (hbody : I.tokens[index + 2]? = some .opening) (hcount : passCount word ≠ 0) :
    (I.repetition inner index s).2.truncated = true := by
  obtain ⟨count, hsucc⟩ := Nat.exists_eq_succ_of_ne_zero hcount
  have hcounted : I.exhausted (counted word s) = true := by
    unfold counted
    split <;> exact hs
  unfold passCount at hsucc
  rw [Interpreter.repetition_of_body hword hbody, hsucc,
    Interpreter.passes_of_exhausted hcounted]
  rfl

/-- In every state that is reached, a loop ends where the text says unless it is cut short. -/
theorem repeatAt_fst {x : Machine.State σ} (hx : I.Reached x) {depth index : Nat}
    (h : cutShort (repeatAt I depth index) x.session = false) :
    (repeatAt I depth index x.session).1 =
      index + loopInput I.tokens (bodyStop I.tokens I.table (I.limits.depth - depth)) index := by
  unfold cutShort repeatAt at h
  unfold repeatAt
  cases htruncated : x.session.truncated with
  | false =>
      rw [lowered_eq htruncated] at h
      exact congrArg (index + ·) (repetition_fst (steady I _) (sound_of_reached hx) h)
  | true =>
      -- No steps are left from an earlier cut, so only a loop without a pass is not cut short.
      have hlowered : I.exhausted { x.session with truncated := false } = true :=
        exhausted_of_reached hx htruncated
      refine congrArg (index + ·) (repetition_fst_of_no_pass ?_)
      intro word hword hbody
      apply Decidable.byContradiction
      intro hcount
      have hcut := repetition_cut (I.below (I.limits.depth - depth)) hlowered hword hbody hcount
      rw [h] at hcut
      cases hcut

/-- A count that is zero, negative or unreadable gives no pass. -/
theorem passCount_eq_zero_iff {word : Token} :
    passCount word = 0 ↔ ∀ n, Integer.leading? word.text = some n → n ≤ 0 := by
  unfold passCount
  cases Integer.leading? word.text with
  | none => simp
  | some n => simp

/-- A loop that makes passes ends where one that makes none does. In every state that is reached, a
loop that is not cut short ends at the bracket that closes its body if it makes no pass or lies too
deep to make one. If its body is plain, it never ends behind that bracket; and it ends at it just if
it is not read for one of these reasons, or the body opens nothing but loops. -/
theorem loop_ends_at_close {x : Machine.State σ} (hx : I.Reached x) {index last : Nat}
    {word : Token} (hword : I.tokens[index + 1]? = some word)
    (hbody : I.tokens[index + 2]? = some .opening)
    (hclose : Bracket.close I.tokens (index + 3) = last) (hlast : last < I.tokens.size)
    (huncut : cutShort (repeatAt I x.depth index) x.session = false) :
    let idle := (∀ n, Integer.leading? word.text = some n → n ≤ 0) ∨ I.limits.depth ≤ x.depth
    (idle → (repeatAt I x.depth index x.session).1 = last) ∧
    (Plain I.tokens (index + 3) last →
      (repeatAt I x.depth index x.session).1 ≤ last ∧
        ((repeatAt I x.depth index x.session).1 = last ↔
          idle ∨ OpensLoopsOnly I.tokens (I.limits.depth - x.depth - 1) last (index + 3))) := by
  intro idle
  have hbelow := le_close_of_body hbody
  have hfst := repeatAt_fst hx huncut
  rw [loopInput_of_body _ hword hbody] at hfst
  have hidle : idle ↔ passCount word = 0 ∨ I.limits.depth - x.depth = 0 :=
    or_congr passCount_eq_zero_iff.symm Nat.sub_eq_zero_iff_le.symm
  subst hclose
  refine ⟨?_, ?_⟩
  · intro hnone
    have hnotRead : passCount word = 0 ∨
        bodyStop I.tokens I.table (I.limits.depth - x.depth) = none := by
      refine (hidle.mp hnone).imp id ?_
      intro hdeep
      rw [hdeep]
      rfl
    rw [hfst, loopEnd_of_no_pass hnotRead]
    omega
  · intro hplain
    have hfrom : index + 3 ≤ loopEnd I.tokens
        (bodyStop I.tokens I.table (I.limits.depth - x.depth)) index word := le_loopEnd hbody
    have hwithin : EndsWithin I.tokens (bodyStop I.tokens I.table (I.limits.depth - x.depth)) :=
      endsWithin_bodyStop _
    have hupto := hwithin index word hlast hplain.toOrderly
    have hatClose : EndsAtClose I.tokens (I.limits.depth - x.depth)
        (bodyStop I.tokens I.table (I.limits.depth - x.depth)) := endsAtClose_bodyStop _
    have hends := hatClose index word hlast hplain
    have hlastIs : (repeatAt I x.depth index x.session).1 = loopEnd I.tokens
        (bodyStop I.tokens I.table (I.limits.depth - x.depth)) index word := by
      omega
    rw [hlastIs, hidle, or_assoc]
    exact ⟨hupto, hends⟩

end Loops

/-- A loop in which an opening bracket belongs to no loop. -/
def bare (count : String) : Interpreter (Array Command) where
  tokens := #[⟨"repeat"⟩, ⟨count⟩, .opening, .opening, .closing, .closing]
  table := .standard
  limits := .standard
  obey := Array.push

/-- A pass does not count brackets, so it takes the one that closes the inner pair for its own; a
loop that makes no pass does count them. -/
theorem loop_ends_early_bare :
    (bare "1").Reached (.atRest (.new #[])) ∧
      (bare "1").tokens[0]? = some Keyword.repetition.token ∧
      (bare "1").tokens[2]? = some .opening ∧
      Bracket.close (bare "1").tokens 3 = 5 ∧ 5 < (bare "1").tokens.size ∧
      Plain (bare "1").tokens 3 5 ∧
      cutShort (repeatAt (bare "1") 0 0) (.new #[]) = false ∧
      (repeatAt (bare "1") 0 0 (.new #[])).2.skipped = #[] ∧
      (repeatAt (bare "1") 0 0 (.new #[])).1 ≠ 5 ∧ (repeatAt (bare "0") 0 0 (.new #[])).1 = 5 := by
  refine ⟨⟨#[], .refl⟩, by decide, by decide, by decide +kernel, by decide, by decide, ?_⟩
  decide +kernel

/-- A loop around one that makes passes and one that makes none, which has brackets of its own. -/
def around : Interpreter (Array Command) where
  tokens := #[⟨"repeat"⟩, ⟨"2"⟩, .opening, ⟨"fd"⟩, ⟨"10"⟩, ⟨"repeat"⟩, ⟨"3"⟩, .opening, ⟨"pu"⟩,
    .closing, ⟨"repeat"⟩, ⟨"-1"⟩, .opening, .opening, .closing, .closing, ⟨"bckgr"⟩, ⟨"red"⟩,
    .closing, ⟨"home"⟩]
  table := .standard
  limits := ⟨4, some 100⟩
  obey := Array.push

/-- The loop is run again after the whole script. -/
theorem loop_ends_at_close_around :
    let s := around.afterCalls [(.top, 0)] (.new #[])
    around.Reached (.atRest s) ∧ Bracket.close around.tokens 3 = 18 ∧
      cutShort (repeatAt around 0 0) s = false ∧ Plain around.tokens 3 18 ∧
      OpensLoopsOnly around.tokens 3 18 3 ∧ (repeatAt around 0 0 s).1 = 18 := by
  intro s
  have hreached : around.Reached (.atRest s) :=
    ⟨#[], around.leads_afterCalls [(.top, 0)] (.new #[])⟩
  have hclose : Bracket.close around.tokens 3 = 18 := by decide +kernel
  have hpenUp : Bracket.close around.tokens 8 = 9 := by decide +kernel
  have hidle : Bracket.close around.tokens 13 = 15 := by decide +kernel
  have huncut : cutShort (repeatAt around 0 0) s = false := by decide +kernel
  have hplain : Plain around.tokens 3 18 := by decide
  have hreads : OpensLoopsOnly around.tokens 3 18 3 := by
    apply OpensLoopsOnly.word rfl (by decide)
    apply OpensLoopsOnly.word rfl (by decide)
    apply OpensLoopsOnly.loop rfl rfl
    · rw [hpenUp]
      apply OpensLoopsOnly.word rfl (by decide)
      exact OpensLoopsOnly.done (Nat.le_refl 9)
    · rw [hpenUp]
      apply OpensLoopsOnly.idle rfl rfl rfl (by decide)
      rw [hidle]
      apply OpensLoopsOnly.colour rfl
      exact OpensLoopsOnly.done (Nat.le_refl 18)
  have hword : around.tokens[0 + 1]? = some ⟨"2"⟩ := rfl
  obtain ⟨-, hends⟩ := loop_ends_at_close hreached hword rfl hclose (by decide) huncut
  obtain ⟨-, hexact⟩ := hends hplain
  exact ⟨hreached, hclose, huncut, hplain, hreads, hexact.mpr (Or.inr hreads)⟩

end LoopEnd

end TurtleScript
