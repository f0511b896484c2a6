import TurtleScript.Bracket

/-!
How the search for a closing bracket passes over the tokens. A search that has `depth` brackets to
close first goes on, after each closing bracket it uses up, as a search with one less. So a search
finds the place that every search begun further along with the right depth finds, and the bodies it
passes over close before it does.
-/

namespace TurtleScript

namespace Bracket

variable {tokens : Array Token} {depth start : Nat}

theorem closeFrom_of_size_le (h : tokens.size ≤ start) :
    closeFrom tokens depth start = tokens.size := by
  rw [closeFrom.eq_def tokens _ start, dif_neg (Nat.not_lt.mpr h)]

theorem closeFrom_of_opening (h : tokens[start]? = some .opening) :
    closeFrom tokens depth start = closeFrom tokens (depth + 1) (start + 1) := by
  obtain ⟨hlt, htoken⟩ := Array.getElem?_eq_some_iff.mp h
  rw [closeFrom.eq_def tokens _ start, dif_pos hlt, if_pos htoken]

theorem closeFrom_zero_of_closing (h : tokens[start]? = some .closing) :
    closeFrom tokens 0 start = start := by
  obtain ⟨hlt, htoken⟩ := Array.getElem?_eq_some_iff.mp h
  have hnot : ¬ tokens[start] = .opening := by
    rw [htoken]
    decide
  rw [closeFrom.eq_def tokens _ start, dif_pos hlt, if_neg hnot, if_pos htoken]

theorem closeFrom_succ_of_closing (h : tokens[start]? = some .closing) :
    closeFrom tokens (depth + 1) start = closeFrom tokens depth (start + 1) := by
  obtain ⟨hlt, htoken⟩ := Array.getElem?_eq_some_iff.mp h
  have hnot : ¬ tokens[start] = .opening := by
    rw [htoken]
    decide
  rw [closeFrom.eq_def tokens _ start, dif_pos hlt, if_neg hnot, if_pos htoken]

theorem closeFrom_of_ne {token : Token} (h : tokens[start]? = some token)
    (hopening : token ≠ .opening) (hclosing : token ≠ .closing) :
    closeFrom tokens depth start = closeFrom tokens depth (start + 1) := by
  obtain ⟨hlt, htoken⟩ := Array.getElem?_eq_some_iff.mp h
  rw [closeFrom.eq_def tokens _ start, dif_pos hlt, htoken, if_neg hopening, if_neg hclosing]

theorem closeFrom_le_size : closeFrom tokens depth start ≤ tokens.size := by
  fun_induction closeFrom tokens depth start with
  | case1 depth start hlt hopening ih => exact ih
  | case2 start hlt hopening hclosing => exact Nat.le_of_lt hlt
  | case3 start hlt hopening hclosing outer ih => exact ih
  | case4 depth start hlt hopening hclosing ih => exact ih
  | case5 depth start hlt => exact Nat.le_refl _

theorem le_closeFrom (h : start ≤ tokens.size) : start ≤ closeFrom tokens depth start := by
  fun_induction closeFrom tokens depth start with
  | case1 depth start hlt hopening ih => exact Nat.le_of_succ_le (ih hlt)
  | case2 start hlt hopening hclosing => exact Nat.le_refl _
  | case3 start hlt hopening hclosing outer ih => exact Nat.le_of_succ_le (ih hlt)
  | case4 depth start hlt hopening hclosing ih => exact Nat.le_of_succ_le (ih hlt)
  | case5 depth start hlt => exact h

theorem le_closeFrom_of_lt (h : closeFrom tokens depth start < tokens.size) :
    start ≤ closeFrom tokens depth start := by
  apply le_closeFrom
  apply Nat.le_of_not_lt
  intro hlt
  rw [closeFrom_of_size_le (Nat.le_of_lt hlt)] at h
  exact Nat.lt_irrefl _ h

/-- What a search finds before the tokens run out is a closing bracket. -/
theorem closing_of_closeFrom_lt (h : closeFrom tokens depth start < tokens.size) :
    tokens[closeFrom tokens depth start]? = some .closing := by
  fun_induction closeFrom tokens depth start with
  | case1 depth start hlt hopening ih => exact ih h
  | case2 start hlt hopening hclosing => rw [Array.getElem?_eq_getElem hlt, hclosing]
  | case3 start hlt hopening hclosing outer ih => exact ih h
  | case4 depth start hlt hopening hclosing ih => exact ih h
  | case5 depth start hlt => exact absurd h (Nat.lt_irrefl _)

/-- A search with more brackets to close goes on past what a search with fewer finds. -/
theorem closeFrom_add (outer : Nat) :
    closeFrom tokens (depth + outer + 1) start =
      closeFrom tokens outer (closeFrom tokens depth start + 1) := by
  fun_induction closeFrom tokens depth start with
  | case1 depth start hlt hopening ih =>
      rw [closeFrom_of_opening (by rw [Array.getElem?_eq_getElem hlt, hopening]), ← ih]
      congr 1
      omega
  | case2 start hlt hopening hclosing =>
      rw [Nat.zero_add]
      exact closeFrom_succ_of_closing (by rw [Array.getElem?_eq_getElem hlt, hclosing])
  | case3 start hlt hopening hclosing inside ih =>
      rw [closeFrom_succ_of_closing (by rw [Array.getElem?_eq_getElem hlt, hclosing]), ← ih]
      congr 1
      omega
  | case4 depth start hlt hopening hclosing ih =>
      rw [closeFrom_of_ne (Array.getElem?_eq_getElem hlt) hopening hclosing]
      exact ih
  | case5 depth start hlt =>
      rw [closeFrom_of_size_le (Nat.le_of_not_lt hlt), closeFrom_of_size_le (Nat.le_succ _)]

theorem closeFrom_succ :
    closeFrom tokens (depth + 1) start = closeFrom tokens 0 (closeFrom tokens depth start + 1) :=
  closeFrom_add 0

/-- A search passes over a body that is opened on its way. -/
theorem closeFrom_of_body {body : Nat} (h : tokens[start]? = some .opening)
    (hbody : start + 1 = body) :
    closeFrom tokens depth start = closeFrom tokens depth (close tokens body + 1) := by
  subst hbody
  have hadd : closeFrom tokens (0 + depth + 1) (start + 1) =
      closeFrom tokens depth (close tokens (start + 1) + 1) := closeFrom_add depth
  rw [Nat.zero_add] at hadd
  rw [closeFrom_of_opening h]
  exact hadd

theorem closeFrom_le_succ : closeFrom tokens depth start ≤ closeFrom tokens (depth + 1) start := by
  rw [closeFrom_succ]
  by_cases hlt : closeFrom tokens depth start < tokens.size
  · exact Nat.le_of_succ_le (le_closeFrom hlt)
  · rw [closeFrom_of_size_le (Nat.le_succ_of_le (Nat.le_of_not_lt hlt))]
    exact closeFrom_le_size

theorem closeFrom_lt_succ (h : closeFrom tokens (depth + 1) start < tokens.size) :
    closeFrom tokens depth start < closeFrom tokens (depth + 1) start := by
  have hlt : closeFrom tokens depth start < tokens.size := Nat.lt_of_le_of_lt closeFrom_le_succ h
  rw [closeFrom_succ]
  exact le_closeFrom hlt

theorem close_le_closeFrom : close tokens start ≤ closeFrom tokens depth start := by
  induction depth with
  | zero => exact Nat.le_refl _
  | succ depth ih => exact Nat.le_trans ih closeFrom_le_succ

/-- A search goes on from the next token with some depth, unless it has found its place. -/
theorem exists_closeFrom_next (h : start < closeFrom tokens depth start) :
    ∃ next, closeFrom tokens next (start + 1) = closeFrom tokens depth start := by
  have hlt : start < tokens.size := Nat.lt_of_lt_of_le h closeFrom_le_size
  have htoken : tokens[start]? = some tokens[start] := Array.getElem?_eq_getElem hlt
  by_cases hopening : tokens[start] = .opening
  · rw [hopening] at htoken
    exact ⟨depth + 1, (closeFrom_of_opening htoken).symm⟩
  · by_cases hclosing : tokens[start] = .closing
    · rw [hclosing] at htoken
      cases depth with
      | zero =>
          rw [closeFrom_zero_of_closing htoken] at h
          exact absurd h (Nat.lt_irrefl start)
      | succ outer => exact ⟨outer, (closeFrom_succ_of_closing htoken).symm⟩
    · exact ⟨depth, (closeFrom_of_ne htoken hopening hclosing).symm⟩

/-- A search begun on the way of another finds the same place, with the right depth. -/
theorem exists_closeFrom_eq {index : Nat} (hstart : start ≤ index)
    (hindex : index ≤ closeFrom tokens depth start) :
    ∃ inside, closeFrom tokens inside index = closeFrom tokens depth start := by
  induction hstart with
  | refl => exact ⟨depth, rfl⟩
  | step hstart ih =>
      obtain ⟨inside, hinside⟩ := ih (Nat.le_of_succ_le hindex)
      rw [← hinside] at hindex ⊢
      exact exists_closeFrom_next hindex

/-- From a place inside a body, the next bracket that is closed lies within the body. -/
theorem close_le_close {index : Nat} (hstart : start ≤ index)
    (hindex : index ≤ close tokens start) : close tokens index ≤ close tokens start := by
  obtain ⟨inside, hinside⟩ := exists_closeFrom_eq hstart hindex
  have hle : close tokens index ≤ closeFrom tokens inside index := close_le_closeFrom
  rw [hinside] at hle
  exact hle

/-- A body that is opened on the way of a search closes before the place that is found. -/
theorem close_lt_closeFrom {index : Nat} (hstart : start ≤ index)
    (hindex : index < closeFrom tokens depth start)
    (hfound : closeFrom tokens depth start < tokens.size)
    (hopening : tokens[index]? = some .opening) :
    close tokens (index + 1) < closeFrom tokens depth start := by
  obtain ⟨inside, hinside⟩ := exists_closeFrom_eq hstart (Nat.le_of_lt hindex)
  rw [closeFrom_of_opening hopening] at hinside
  rw [← hinside] at hfound ⊢
  exact Nat.lt_of_le_of_lt close_le_closeFrom (closeFrom_lt_succ hfound)

/-- A bracket that is closed within some tokens is closed at the same place with more tokens after
them. -/
theorem closeFrom_append {more : Array Token} (h : closeFrom tokens depth start < tokens.size) :
    closeFrom (tokens ++ more) depth start = closeFrom tokens depth start := by
  have happend {index : Nat} (hlt : index < tokens.size) :
      (tokens ++ more)[index]? = some tokens[index] := by
    rw [Array.getElem?_append_left hlt, Array.getElem?_eq_getElem hlt]
  fun_induction closeFrom tokens depth start with
  | case1 depth start hlt hopening ih =>
      rw [closeFrom_of_opening (by rw [happend hlt, hopening])]
      exact ih h
  | case2 start hlt hopening hclosing =>
      exact closeFrom_zero_of_closing (by rw [happend hlt, hclosing])
  | case3 start hlt hopening hclosing outer ih =>
      rw [closeFrom_succ_of_closing (by rw [happend hlt, hclosing])]
      exact ih h
  | case4 depth start hlt hopening hclosing ih =>
      rw [closeFrom_of_ne (happend hlt) hopening hclosing]
      exact ih h
  | case5 depth start hlt => exact absurd h (Nat.lt_irrefl _)

end Bracket

end TurtleScript
