import TurtleScript.Token

/-!
Texts that spell tokens. Every token of a text is a bracket or a word without separators and
brackets, and a text that spells such tokens with enough separators between them has just these
tokens.
-/

namespace TurtleScript

namespace Token

/-- A stretch of what has a property ends where the property does. -/
theorem span_of_stop {α : Type} {p : α → Bool} {l rest : List α} (hl : ∀ a ∈ l, p a = true)
    (hrest : ∀ a ∈ rest.head?, p a = false) :
    (l ++ rest).takeWhile p = l ∧ (l ++ rest).dropWhile p = rest := by
  have htake : rest.takeWhile p = [] := by
    cases rest with
    | nil => rfl
    | cons a as => simp [hrest a (by simp)]
  have hdrop : rest.dropWhile p = rest := by
    cases rest with
    | nil => rfl
    | cons a as => simp [hrest a (by simp)]
  rw [List.takeWhile_append_of_pos hl, List.dropWhile_append_of_pos hl, htake, hdrop]
  simp

/-- What is left after such a stretch starts with something that does not have the property. -/
theorem stops_dropWhile {α : Type} {p : α → Bool} (l : List α) :
    ∀ a ∈ (l.dropWhile p).head?, p a = false := by
  intro a ha
  have hhead := List.head?_dropWhile_not p l
  rw [Option.mem_def.mp ha] at hhead
  simpa using hhead

/-- Tokens that can stand in a text: brackets, and words without separators and brackets. -/
def IsWritten (t : Token) : Prop :=
  t.isBracket = true ∨ (t.text.toList ≠ [] ∧ ∀ c ∈ t.text.toList, isWordChar c = true)

instance (t : Token) : Decidable t.IsWritten :=
  decidable_of_iff
    ((t.isBracket || !t.text.toList.isEmpty && t.text.toList.all isWordChar) = true)
    (by simp [IsWritten])

theorem isWordChar_eq_true_iff {c : Char} :
    isWordChar c = true ↔ isSeparator c = false ∧ isBracketChar c = false := by
  simp [isWordChar]

theorem isBracket_iff {t : Token} : t.isBracket = true ↔ t = opening ∨ t = closing := by
  simp [isBracket]

/-- The first token of a text can stand in a text. -/
theorem isWritten_of_first? {cs rest : List Char} {t : Token} (h : first? cs = some (t, rest)) :
    t.IsWritten := by
  cases cs with
  | nil => cases h
  | cons c cs =>
      simp only [first?] at h
      split at h
      · cases h
      · rename_i hseparator
        split at h
        · rename_i hbracket
          cases h
          left
          simp only [isBracketChar, Bool.or_eq_true, beq_iff_eq] at hbracket
          rcases hbracket with rfl | rfl <;> decide
        · rename_i hbracket
          cases h
          right
          refine ⟨by simp, ?_⟩
          intro d hd
          simp only [String.toList_ofList, List.mem_cons] at hd
          rcases hd with rfl | hd
          · rw [isWordChar_eq_true_iff]
            exact ⟨Bool.eq_false_iff.mpr hseparator, Bool.eq_false_iff.mpr hbracket⟩
          · exact List.all_eq_true.mp List.all_takeWhile d hd

theorem isWritten_of_mem_scan {cs : List Char} {t : Token} (h : t ∈ (scan cs).1) :
    t.IsWritten := by
  fun_induction scan cs with
  | case1 => cases h
  | case2 cs first rest hfirst ts left hscan ih =>
      rcases List.mem_cons.mp h with rfl | hrest
      · exact isWritten_of_first? hfirst
      · apply ih
        rw [hscan]
        exact hrest

theorem isWritten_of_mem_tokenize {text : String} {t : Token} (h : t ∈ tokenize text) :
    t.IsWritten :=
  isWritten_of_mem_scan h

/-- Characters that spell tokens: the tokens in order with separators after them. Only next to a
bracket there may be none. -/
inductive Spells : List Token → List Char → Prop
  | nil : Spells [] []
  | cons {t : Token} {ts : List Token} {gap rest : List Char} (hwritten : t.IsWritten)
      (hgap : ∀ c ∈ gap, isSeparator c = true)
      (hapart : t.isBracket = true ∨ ∀ c ∈ (gap ++ rest).head?, isWordChar c = false)
      (hrest : Spells ts rest) : Spells (t :: ts) (t.text.toList ++ (gap ++ rest))

/-- The first token of characters that spell it. -/
theorem first?_append {t : Token} {rest : List Char} (hwritten : t.IsWritten)
    (hapart : t.isBracket = true ∨ ∀ c ∈ rest.head?, isWordChar c = false) :
    first? (t.text.toList ++ rest) = some (t, rest) := by
  by_cases hbracket : t.isBracket = true
  · rcases isBracket_iff.mp hbracket with rfl | rfl <;> rfl
  · obtain ⟨hne, hword⟩ := hwritten.resolve_left hbracket
    have hstop := hapart.resolve_left hbracket
    obtain ⟨c, cs, hcs⟩ := List.exists_cons_of_ne_nil hne
    rw [hcs] at hword
    obtain ⟨hseparator, hnobracket⟩ := isWordChar_eq_true_iff.mp (hword c (by simp))
    have htail : ∀ a ∈ cs, isWordChar a = true := by
      intro a ha
      exact hword a (by simp [ha])
    obtain ⟨htake, hdrop⟩ := span_of_stop htail hstop
    have htext : String.ofList (c :: cs) = t.text := by
      rw [← hcs, String.ofList_toList]
    simp [hcs, first?, hseparator, hnobracket, htake, hdrop, htext]

/-- Characters that spell tokens start with no separator. -/
theorem Spells.dropWhile_separators {ts : List Token} {cs : List Char} (h : Spells ts cs) :
    cs.dropWhile isSeparator = cs := by
  cases h with
  | nil => rfl
  | @cons t ts gap rest hwritten hgap hapart hrest =>
      have hfirst := first?_append hwritten hapart
      cases hcs : t.text.toList ++ (gap ++ rest) with
      | nil => rfl
      | cons c cs =>
          rw [hcs] at hfirst
          have hc : isSeparator c = false := by
            apply Bool.eq_false_iff.mpr
            intro hc
            simp [first?, hc] at hfirst
          simp [hc]

/-- What spells tokens is scanned as these tokens. -/
theorem scan_of_spells {ts : List Token} {cs : List Char} (h : Spells ts cs) :
    scan cs = (ts, []) := by
  induction h with
  | nil =>
      rw [scan]
      rfl
  | @cons t ts gap rest hwritten hgap hapart hrest ih =>
      have hfirst := first?_append hwritten hapart
      have hdrop : (gap ++ rest).dropWhile isSeparator = rest := by
        rw [List.dropWhile_append_of_pos hgap, hrest.dropWhile_separators]
      rw [scan]
      split
      · rename_i hnone
        rw [hfirst] at hnone
        cases hnone
      · rename_i first after hsome
        rw [hfirst] at hsome
        cases hsome
        rw [hdrop, ih]

/-- A text that spells tokens has these tokens. -/
theorem tokenize_of_spells {ts : List Token} {cs : List Char} (h : Spells ts cs) :
    tokenize (String.ofList cs) = ts := by
  rw [tokenize, split, String.toList_ofList, h.dropWhile_separators, scan_of_spells h]

/-- One separator after a token is enough. -/
theorem Spells.cons_separator {t : Token} {ts : List Token} {c : Char} {rest : List Char}
    (hwritten : t.IsWritten) (hc : isSeparator c = true) (hrest : Spells ts rest) :
    Spells (t :: ts) (t.text.toList ++ c :: rest) := by
  have hgap : ∀ d ∈ [c], isSeparator d = true := by
    intro d hd
    rw [List.mem_singleton.mp hd]
    exact hc
  have hapart : ∀ d ∈ ([c] ++ rest).head?, isWordChar d = false := by
    intro d hd
    cases hd
    simp [isWordChar, hc]
  exact .cons hwritten hgap (Or.inr hapart) hrest

end Token

end TurtleScript
