import Mathlib.Data.List.DropRight
import TurtleScript.Proofs.Token.Spelling

/-!
The tokenizer as a scanner that reads a text once, from left to right, and looks at one character at
a time. It keeps the word that it is in the middle of. A separator ends that word, a bracket ends it
and is a token of its own, and every other character is added to it.

The tokenizer itself looks ahead to the end of each word and absorbs separators in stretches. The two
agree on every text: a pending word is a part of the stretch that the tokenizer takes at once.
-/

namespace TurtleScript

namespace Token

/-- The token that a pending word makes, if there is a word. -/
def flush (pending : List Char) : List Token :=
  if pending = [] then [] else [⟨String.ofList pending⟩]

/-- The tokens of what is left of a text, after the characters of a pending word. -/
def onePass (separators pending : List Char) : List Char → List Token
  | [] => flush pending
  | c :: cs =>
      if c ∈ separators then flush pending ++ onePass separators [] cs
      else if c = '[' ∨ c = ']' then
        flush pending ++ ⟨String.singleton c⟩ :: onePass separators [] cs
      else onePass separators (pending ++ [c]) cs

/-- The separators of a script. -/
def separators : List Char := [' ', '\n']

theorem isSeparator_iff {c : Char} : isSeparator c = true ↔ c ∈ separators := by
  simp [isSeparator, separators]

theorem isSeparator_eq_false_iff {c : Char} : isSeparator c = false ↔ c ∉ separators := by
  rw [← isSeparator_iff, Bool.not_eq_true]

theorem isBracketChar_iff {c : Char} : isBracketChar c = true ↔ c = '[' ∨ c = ']' := by
  simp [isBracketChar]

theorem isBracketChar_eq_false_iff {c : Char} :
    isBracketChar c = false ↔ ¬(c = '[' ∨ c = ']') := by
  rw [← isBracketChar_iff, Bool.not_eq_true]

theorem isSeparator_of_bracket {c : Char} (h : isBracketChar c = true) :
    isSeparator c = false := by
  rcases isBracketChar_iff.mp h with rfl | rfl <;> decide

theorem flush_of_ne_nil {pending : List Char} (h : pending ≠ []) :
    flush pending = [⟨String.ofList pending⟩] :=
  if_neg h

section

variable {pending cs rest : List Char} {c : Char} {t : Token}

theorem onePass_of_separator (h : isSeparator c = true) :
    onePass separators pending (c :: cs) = flush pending ++ onePass separators [] cs := by
  rw [onePass, if_pos (isSeparator_iff.mp h)]

theorem onePass_of_bracket (h : isBracketChar c = true) :
    onePass separators pending (c :: cs) =
      flush pending ++ ⟨String.singleton c⟩ :: onePass separators [] cs := by
  have hseparator : c ∉ separators := isSeparator_eq_false_iff.mp (isSeparator_of_bracket h)
  rw [onePass, if_neg hseparator, if_pos (isBracketChar_iff.mp h)]

theorem onePass_of_wordChar (h : isWordChar c = true) :
    onePass separators pending (c :: cs) = onePass separators (pending ++ [c]) cs := by
  obtain ⟨hseparator, hbracket⟩ := isWordChar_eq_true_iff.mp h
  rw [onePass, if_neg (isSeparator_eq_false_iff.mp hseparator),
    if_neg (isBracketChar_eq_false_iff.mp hbracket)]

/-- Where no further character belongs to a pending word, it is a token. -/
theorem onePass_of_stop (hpending : pending ≠ []) (hstop : ∀ c ∈ cs.head?, isWordChar c = false) :
    onePass separators pending cs = ⟨String.ofList pending⟩ :: onePass separators [] cs := by
  cases cs with
  | nil => exact flush_of_ne_nil hpending
  | cons c cs =>
      have hc : isWordChar c = false := hstop c rfl
      cases hseparator : isSeparator c with
      | true =>
          rw [onePass_of_separator hseparator, onePass_of_separator hseparator,
            flush_of_ne_nil hpending]
          rfl
      | false =>
          have hbracket : isBracketChar c = true := by
            simpa [isWordChar, hseparator] using hc
          rw [onePass_of_bracket hbracket, onePass_of_bracket hbracket, flush_of_ne_nil hpending]
          rfl

/-- A pending word grows by a stretch that belongs to it. -/
theorem onePass_append {word : List Char} (hword : ∀ c ∈ word, isWordChar c = true) :
    onePass separators pending (word ++ cs) = onePass separators (pending ++ word) cs := by
  induction word generalizing pending with
  | nil => rw [List.nil_append, List.append_nil]
  | cons c word ih =>
      have htail : ∀ d ∈ word, isWordChar d = true := by
        intro d hd
        exact hword d (List.mem_cons_of_mem c hd)
      rw [List.cons_append, onePass_of_wordChar (hword c List.mem_cons_self), ih htail,
        List.append_assoc]
      rfl

/-- Between words, separators do nothing. -/
theorem onePass_dropWhile (cs : List Char) :
    onePass separators [] (cs.dropWhile isSeparator) = onePass separators [] cs := by
  induction cs with
  | nil => rfl
  | cons c cs ih =>
      cases hc : isSeparator c with
      | true =>
          rw [List.dropWhile_cons_of_pos hc, ih, onePass_of_separator hc]
          rfl
      | false => rw [List.dropWhile_cons_of_neg (by simp [hc])]

/-- The scanner finds the token at the start of a text and goes on after it. -/
theorem onePass_of_first? (h : first? cs = some (t, rest)) :
    onePass separators [] cs = t :: onePass separators [] rest := by
  cases cs with
  | nil => cases h
  | cons c cs =>
      rw [first?] at h
      split at h
      · cases h
      · rename_i hseparator
        rw [Bool.not_eq_true] at hseparator
        split at h
        · rename_i hbracket
          cases h
          rw [onePass_of_bracket hbracket]
          rfl
        · rename_i hbracket
          rw [Bool.not_eq_true] at hbracket
          cases h
          have hc : isWordChar c = true := isWordChar_eq_true_iff.mpr ⟨hseparator, hbracket⟩
          have hword : ∀ d ∈ cs.takeWhile isWordChar, isWordChar d = true :=
            List.all_eq_true.mp List.all_takeWhile
          calc
            onePass separators [] (c :: cs) = onePass separators [c] cs :=
              onePass_of_wordChar hc
            _ = onePass separators [c] (cs.takeWhile isWordChar ++ cs.dropWhile isWordChar) := by
              rw [List.takeWhile_append_dropWhile]
            _ = onePass separators (c :: cs.takeWhile isWordChar) (cs.dropWhile isWordChar) :=
              onePass_append hword
            _ = _ := onePass_of_stop (List.cons_ne_nil _ _) (stops_dropWhile cs)

/-- A text that starts with no token is empty, unless it starts with a separator. -/
theorem eq_nil_of_first? (hstart : cs.dropWhile isSeparator = cs) (h : first? cs = none) :
    cs = [] := by
  cases cs with
  | nil => rfl
  | cons c cs =>
      cases hc : isSeparator c with
      | true =>
          rw [List.dropWhile_cons_of_pos hc] at hstart
          have hlength := length_dropWhile_le isSeparator cs
          rw [hstart, List.length_cons] at hlength
          omega
      | false =>
          rw [first?, if_neg (by simp [hc])] at h
          split at h <;> cases h

/-- What starts with no separator is scanned to its end, with the tokens that one pass finds. -/
theorem scan_eq_onePass (hstart : cs.dropWhile isSeparator = cs) :
    scan cs = (onePass separators [] cs, []) := by
  fun_induction scan cs with
  | case1 cs hnone =>
      rw [eq_nil_of_first? hstart hnone]
      rfl
  | case2 cs t rest hfirst ts left hscan ih =>
      have hrest := ih (List.dropWhile_idempotent isSeparator rest)
      rw [onePass_dropWhile, hscan, Prod.mk.injEq] at hrest
      obtain ⟨rfl, rfl⟩ := hrest
      rw [onePass_of_first? hfirst]

/-- The tokenizer reads every text to its end and finds the tokens that one pass finds. -/
theorem split_eq_onePass (text : String) :
    split text = (onePass separators [] text.toList, []) := by
  rw [split, scan_eq_onePass (List.dropWhile_idempotent isSeparator text.toList),
    onePass_dropWhile]

end

end Token

end TurtleScript
