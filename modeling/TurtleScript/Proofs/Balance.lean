import Mathlib.Logic.Relation
import Mathlib.Order.Bounds.Defs
import TurtleScript.Proofs.Brackets

/-!
The place where a body closes, told by the brackets alone. A closing bracket balances a body if as many
brackets are opened as are closed between the start of the body and it, and nowhere on the way more
have been closed than opened. The search for the end of a body finds the first bracket that does so.

The search keeps a count of the brackets that are still open. It is taken one token at a time here, with
an integer for a count, so that the count could fall below zero. After every token the count is the number
of brackets opened less that of brackets closed, and none of the brackets passed so far balances the body.
-/

namespace TurtleScript

namespace Bracket

/-- The tokens from an index up to the one before another. -/
def between (tokens : Array Token) (start stop : Nat) : List Token :=
  (tokens.extract start stop).toList

/-- Wherever one stops, no more brackets have been closed than opened. -/
def Covered (list : List Token) : Prop :=
  ∀ front, front <+: list → front.count .closing ≤ front.count .opening

/-- The closing bracket at an index, if the brackets between the start of a body and it are balanced. -/
structure Balances (tokens : Array Token) (body index : Nat) : Prop where
  body_le : body ≤ index
  closing : tokens[index]? = some .closing
  even : (between tokens body index).count .opening = (between tokens body index).count .closing
  covered : Covered (between tokens body index)

/-- A search on its way: the token to look at next, and the brackets counted as open. -/
structure Search where
  index : Nat
  opened : Int

namespace Search

/-- The search after one more token, unless it is over. -/
def next (tokens : Array Token) (s : Search) : Option Search :=
  match tokens[s.index]? with
  | none => none
  | some token =>
      if token = .opening then some ⟨s.index + 1, s.opened + 1⟩
      else if token = .closing then
        if s.opened = 0 then none else some ⟨s.index + 1, s.opened - 1⟩
      else some ⟨s.index + 1, s.opened⟩

/-- A search comes to another one after some tokens. -/
def Leads (tokens : Array Token) : Search → Search → Prop :=
  Relation.ReflTransGen fun s t => s.next tokens = some t

/-- What the search for the end of a body comes to. -/
def Reached (tokens : Array Token) (body : Nat) (s : Search) : Prop :=
  Leads tokens ⟨body, 0⟩ s

end Search

section

variable {tokens : Array Token} {body index depth : Nat} {token : Token} {list : List Token}

theorem between_succ (hbody : body ≤ index) (htoken : tokens[index]? = some token) :
    between tokens body (index + 1) = between tokens body index ++ [token] := by
  obtain ⟨hlt, hget⟩ := Array.getElem?_eq_some_iff.mp htoken
  rw [between, Array.extract_succ_right (Nat.lt_succ_of_le hbody) hlt, Array.toList_push, hget]
  rfl

theorem between_self (tokens : Array Token) (body : Nat) : between tokens body body = [] := by
  rw [between, Array.extract_empty_of_stop_le_start (Nat.le_refl body)]

theorem covered_nil : Covered [] := by
  intro front hfront
  rw [List.prefix_nil.mp hfront]
  exact Nat.le_refl 0

theorem Covered.concat (h : Covered list)
    (hle : (list ++ [token]).count .closing ≤ (list ++ [token]).count .opening) :
    Covered (list ++ [token]) := by
  intro front hfront
  rcases List.prefix_concat_iff.mp hfront with rfl | hshorter
  · exact hle
  · exact h front hshorter

/-- What is known when a search has come from the start of a body to an index and has so many brackets
to close before it is over. -/
structure Pending (tokens : Array Token) (body index depth : Nat) : Prop where
  body_le : body ≤ index
  count_eq : (between tokens body index).count .opening =
    (between tokens body index).count .closing + depth
  covered : Covered (between tokens body index)
  passed : ∀ i, Balances tokens body i → index ≤ i
  closeFrom_eq : closeFrom tokens depth index = close tokens body

theorem pending_start (tokens : Array Token) (body : Nat) : Pending tokens body body 0 where
  body_le := Nat.le_refl body
  count_eq := by
    rw [between_self]
    rfl
  covered := by
    rw [between_self]
    exact covered_nil
  passed := fun _ hi => hi.body_le
  closeFrom_eq := rfl

/-- A token that does not balance the body is passed, and what it opens or closes is counted. -/
theorem Pending.pass (h : Pending tokens body index depth) (htoken : tokens[index]? = some token)
    (hnot : ¬ Balances tokens body index) {later : Nat}
    (hcount : [token].count .opening + depth = [token].count .closing + later)
    (hclose : closeFrom tokens depth index = closeFrom tokens later (index + 1)) :
    Pending tokens body (index + 1) later := by
  have hbetween := between_succ h.body_le htoken
  have hlater : (between tokens body (index + 1)).count .opening =
      (between tokens body (index + 1)).count .closing + later := by
    rw [hbetween, List.count_append, List.count_append, h.count_eq]
    omega
  refine ⟨Nat.le_succ_of_le h.body_le, hlater, ?_, ?_, hclose.symm.trans h.closeFrom_eq⟩
  · rw [hbetween] at hlater ⊢
    apply h.covered.concat
    rw [hlater]
    exact Nat.le_add_right _ _
  · intro i hi
    apply Nat.lt_of_le_of_ne (h.passed i hi)
    rintro rfl
    exact hnot hi

theorem not_balances_of_ne (htoken : tokens[index]? = some token) (hne : token ≠ .closing) :
    ¬ Balances tokens body index := by
  intro hbalances
  rw [hbalances.closing, Option.some.injEq] at htoken
  exact hne htoken.symm

theorem Pending.opening (h : Pending tokens body index depth)
    (htoken : tokens[index]? = some .opening) : Pending tokens body (index + 1) (depth + 1) := by
  apply h.pass htoken
  · exact not_balances_of_ne htoken (by decide)
  · change 1 + depth = 0 + (depth + 1)
    omega
  · exact closeFrom_of_opening htoken

theorem Pending.closing (h : Pending tokens body index (depth + 1))
    (htoken : tokens[index]? = some .closing) : Pending tokens body (index + 1) depth := by
  apply h.pass htoken
  · intro hbalances
    have hcount := h.count_eq
    rw [hbalances.even] at hcount
    omega
  · change 0 + (depth + 1) = 1 + depth
    omega
  · exact closeFrom_succ_of_closing htoken

theorem Pending.word (h : Pending tokens body index depth) (htoken : tokens[index]? = some token)
    (hopening : token ≠ .opening) (hclosing : token ≠ .closing) :
    Pending tokens body (index + 1) depth := by
  apply h.pass htoken
  · exact not_balances_of_ne htoken hclosing
  · rw [List.count_singleton, List.count_singleton]
    simp [hopening, hclosing]
  · exact closeFrom_of_ne htoken hopening hclosing

/-- A closing bracket that no open one waits for is the first to balance the body. -/
theorem Pending.found (h : Pending tokens body index 0) (htoken : tokens[index]? = some .closing) :
    IsLeast {i | Balances tokens body i} index := by
  constructor
  · exact ⟨h.body_le, htoken, h.count_eq, h.covered⟩
  · exact h.passed

/-- If a search runs out of tokens, nothing balances the body. -/
theorem Pending.missing (h : Pending tokens body index depth) (hsize : tokens.size ≤ index) :
    ¬ ∃ i, Balances tokens body i := by
  rintro ⟨i, hi⟩
  obtain ⟨hlt, -⟩ := Array.getElem?_eq_some_iff.mp hi.closing
  exact absurd (h.passed i hi) (Nat.not_le_of_gt (Nat.lt_of_lt_of_le hlt hsize))

end

namespace Search

variable {tokens : Array Token} {body : Nat} {s t : Search}

/-- The tokens that a search goes on from, and what each does to its count. -/
theorem next_cases (h : s.next tokens = some t) :
    (tokens[s.index]? = some .opening ∧ t = ⟨s.index + 1, s.opened + 1⟩) ∨
    (tokens[s.index]? = some .closing ∧ s.opened ≠ 0 ∧ t = ⟨s.index + 1, s.opened - 1⟩) ∨
    ∃ token, tokens[s.index]? = some token ∧ token ≠ .opening ∧ token ≠ .closing ∧
      t = ⟨s.index + 1, s.opened⟩ := by
  revert h
  fun_cases next tokens s with
  | case1 hnone =>
      intro h
      cases h
  | case2 hopening =>
      intro h
      cases h
      exact .inl ⟨hopening, rfl⟩
  | case3 hzero hclosing =>
      intro h
      cases h
  | case4 hopen hclosing =>
      intro h
      cases h
      exact .inr (.inl ⟨hclosing, hopen, rfl⟩)
  | case5 token htoken hopening hclosing =>
      intro h
      cases h
      exact .inr (.inr ⟨token, htoken, hopening, hclosing, rfl⟩)

/-- A search is over where the tokens are, or at a closing bracket with no bracket open. -/
theorem next_eq_none (h : s.next tokens = none) :
    tokens.size ≤ s.index ∨ (tokens[s.index]? = some .closing ∧ s.opened = 0) := by
  revert h
  fun_cases next tokens s with
  | case1 hnone =>
      intro h
      exact .inl (Array.getElem?_eq_none_iff.mp hnone)
  | case3 hzero hclosing =>
      intro h
      exact .inr ⟨hclosing, hzero⟩
  | _ =>
      intro h
      cases h

theorem index_next (h : s.next tokens = some t) : s.index < tokens.size ∧ t.index = s.index + 1 := by
  have hlt {token : Token} (htoken : tokens[s.index]? = some token) : s.index < tokens.size :=
    (Array.getElem?_eq_some_iff.mp htoken).1
  rcases next_cases h with ⟨htoken, rfl⟩ | ⟨htoken, -, rfl⟩ | ⟨token, htoken, -, -, rfl⟩
  · exact ⟨hlt htoken, rfl⟩
  · exact ⟨hlt htoken, rfl⟩
  · exact ⟨hlt htoken, rfl⟩

/-- The count is right after one more token if it was before. -/
theorem pending_next (h : s.next tokens = some t)
    (hs : ∃ depth : Nat, s.opened = depth ∧ Pending tokens body s.index depth) :
    ∃ depth : Nat, t.opened = depth ∧ Pending tokens body t.index depth := by
  obtain ⟨depth, hopened, hpending⟩ := hs
  rcases next_cases h with ⟨htoken, rfl⟩ | ⟨htoken, hne, rfl⟩ | ⟨token, htoken, hno, hnc, rfl⟩
  · refine ⟨depth + 1, ?_, hpending.opening htoken⟩
    change s.opened + 1 = (depth + 1 : Nat)
    omega
  · -- A bracket is open, so the count does not fall below zero.
    cases depth with
    | zero => exact absurd hopened hne
    | succ depth =>
        refine ⟨depth, ?_, hpending.closing htoken⟩
        change s.opened - 1 = depth
        omega
  · exact ⟨depth, hopened, hpending.word htoken hno hnc⟩

theorem pending_of_reached (h : Reached tokens body s) :
    ∃ depth : Nat, s.opened = depth ∧ Pending tokens body s.index depth := by
  induction h with
  | refl => exact ⟨0, rfl, pending_start tokens body⟩
  | tail _ hnext ih => exact pending_next hnext ih

/-- Every search is over at some time: each step leaves one token fewer. -/
theorem exists_over (tokens : Array Token) (s : Search) :
    ∃ t, Leads tokens s t ∧ t.next tokens = none := by
  induction hleft : tokens.size - s.index generalizing s with
  | zero =>
      refine ⟨s, .refl, ?_⟩
      have hnone : tokens[s.index]? = none :=
        Array.getElem?_eq_none_iff.mpr (Nat.le_of_sub_eq_zero hleft)
      rw [next, hnone]
  | succ left ih =>
      cases hnext : s.next tokens with
      | none => exact ⟨s, .refl, hnext⟩
      | some t =>
          obtain ⟨hlt, hindex⟩ := index_next hnext
          have hfewer : tokens.size - t.index = left := by
            rw [hindex]
            omega
          obtain ⟨u, hleads, hover⟩ := ih t hfewer
          exact ⟨u, .head hnext hleads, hover⟩

/-- A search that is over stands at the first bracket that balances the body, or there is none. -/
theorem found_or_missing (h : Reached tokens body s) (hover : s.next tokens = none) :
    (IsLeast {i | Balances tokens body i} s.index ∧ close tokens body = s.index) ∨
      ((¬ ∃ i, Balances tokens body i) ∧ close tokens body = tokens.size ∧
        tokens.size ≤ s.index) := by
  obtain ⟨depth, hopened, hpending⟩ := pending_of_reached h
  rw [← hpending.closeFrom_eq]
  rcases next_eq_none hover with hsize | ⟨htoken, hzero⟩
  · exact .inr ⟨hpending.missing hsize, closeFrom_of_size_le hsize, hsize⟩
  · obtain rfl : depth = 0 := Int.natCast_eq_zero.mp (hopened.symm.trans hzero)
    exact .inl ⟨hpending.found htoken, closeFrom_zero_of_closing htoken⟩

end Search

/-- A body closes at the first bracket that balances it, and if there is none, where the tokens are over.
The search comes to an end there in every case, and its count never falls below zero on the way. -/
theorem close_balances (tokens : Array Token) (body : Nat) :
    ((∃ i, Balances tokens body i) → IsLeast {i | Balances tokens body i} (close tokens body)) ∧
    ((¬ ∃ i, Balances tokens body i) → close tokens body = tokens.size) ∧
    (∃ s, Search.Reached tokens body s ∧ s.next tokens = none ∧
      close tokens body = min s.index tokens.size) ∧
    ∀ s, Search.Reached tokens body s → 0 ≤ s.opened := by
  obtain ⟨last, hreached, hover⟩ := Search.exists_over tokens ⟨body, 0⟩
  have hend := Search.found_or_missing hreached hover
  refine ⟨?_, ?_, ⟨last, hreached, hover, ?_⟩, ?_⟩
  · intro hsome
    rcases hend with ⟨hleast, hclose⟩ | ⟨hnone, -⟩
    · rw [hclose]
      exact hleast
    · exact absurd hsome hnone
  · intro hnone
    rcases hend with ⟨hleast, -⟩ | ⟨-, hclose, -⟩
    · exact absurd ⟨_, hleast.1⟩ hnone
    · exact hclose
  · rcases hend with ⟨hleast, hclose⟩ | ⟨-, hclose, hsize⟩
    · obtain ⟨hlt, -⟩ := Array.getElem?_eq_some_iff.mp hleast.1.closing
      rw [hclose, Nat.min_eq_left (Nat.le_of_lt hlt)]
    · rw [hclose, Nat.min_eq_right hsize]
  · intro s hs
    obtain ⟨depth, hopened, -⟩ := Search.pending_of_reached hs
    rw [hopened]
    exact Int.natCast_nonneg depth

/-- A body with a loop inside, a stray bracket after it, and a body that is never closed. -/
def crowded : Array Token :=
  #[.opening, .opening, ⟨"fd"⟩, .closing, .closing, .closing, .opening, .closing]

theorem close_balances_crowded :
    Balances crowded 1 4 ∧ IsLeast {i | Balances crowded 1 i} (close crowded 1) ∧
      (¬ ∃ i, Balances crowded 6 i) ∧ close crowded 6 = 8 ∧
      Search.Reached crowded 1 ⟨2, 1⟩ ∧ (0 : Int) ≤ 1 := by
  have hword : Pending crowded 1 3 1 :=
    ((pending_start crowded 1).opening rfl).word rfl (by decide) (by decide)
  have hbalances : Balances crowded 1 4 := ((hword.closing rfl).found rfl).1
  have hnone : ¬ ∃ i, Balances crowded 6 i :=
    (((pending_start crowded 6).opening rfl).closing rfl).missing (Nat.le_refl 8)
  have hreached : Search.Reached crowded 1 ⟨2, 1⟩ := .single rfl
  obtain ⟨hleast, -, -, hcount⟩ := close_balances crowded 1
  obtain ⟨-, hsize, -, -⟩ := close_balances crowded 6
  exact ⟨hbalances, hleast ⟨4, hbalances⟩, hnone, hsize hnone, hreached, hcount _ hreached⟩

end Bracket

end TurtleScript
