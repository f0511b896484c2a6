import TurtleScript.Files.Script
import TurtleScript.Proofs.Token.OnePass

/-!
Plain spacing. A text whose spacing is made plain has no tabs and no carriage returns any more, and
its tokens are those that a scanner finds which takes tabs and carriage returns for separators as
well. Lines stay lines: only what stands between words changes, and the carriage return that a line
may end with.

A carriage return in front of a newline is dropped and every other one becomes a space. This makes no
difference to a scanner for which both are separators, since it ends no word twice.
-/

namespace TurtleScript

namespace Script

/-- What is written for a character once spacing is plain. -/
def blank (c : Char) : Char :=
  if c = '\t' || c = '\r' then ' ' else c

theorem toList_plainSpacing (text : String) :
    (plainSpacing text).toList = (dropReturns text.toList).map blank :=
  String.toList_ofList

/-- A character is one of the two that a space stands for, or it is written as it is. -/
theorem blank_cases (c : Char) :
    ((c = '\t' ∨ c = '\r') ∧ blank c = ' ') ∨ (c ≠ '\t' ∧ c ≠ '\r' ∧ blank c = c) := by
  by_cases htab : c = '\t'
  · exact Or.inl ⟨Or.inl htab, by simp [blank, htab]⟩
  · by_cases hreturn : c = '\r'
    · exact Or.inl ⟨Or.inr hreturn, by simp [blank, hreturn]⟩
    · exact Or.inr ⟨htab, hreturn, by simp [blank, htab, hreturn]⟩

theorem blank_of_ne {c : Char} (htab : c ≠ '\t') (hreturn : c ≠ '\r') : blank c = c := by
  simp [blank, htab, hreturn]

theorem blank_ne {c d : Char} (hd : d = '\t' ∨ d = '\r') : blank c ≠ d := by
  obtain ⟨-, hblank⟩ | ⟨htab, hreturn, hblank⟩ := blank_cases c
  · rw [hblank]
    rcases hd with rfl | rfl <;> decide
  · rw [hblank]
    rcases hd with rfl | rfl
    · exact htab
    · exact hreturn

theorem blank_eq_newline_iff {c : Char} : blank c = '\n' ↔ c = '\n' := by
  obtain ⟨hc, hblank⟩ | ⟨-, -, hblank⟩ := blank_cases c
  · rw [hblank]
    rcases hc with rfl | rfl <;> decide
  · rw [hblank]

theorem dropReturns_of_not_mem {cs : List Char} (h : '\r' ∉ cs) : dropReturns cs = cs := by
  induction cs with
  | nil => rfl
  | cons c cs ih =>
      have hc : c ≠ '\r' := by
        rintro rfl
        exact h List.mem_cons_self
      have hcs : '\r' ∉ cs := fun hmem => h (List.mem_cons_of_mem c hmem)
      rw [dropReturns, ih hcs]
      intro rest hreturn
      exact absurd hreturn hc

/-- Plain spacing has no tabs and no carriage returns. -/
theorem not_mem_plainSpacing (text : String) :
    '\t' ∉ (plainSpacing text).toList ∧ '\r' ∉ (plainSpacing text).toList := by
  rw [toList_plainSpacing]
  constructor
  · intro hmem
    obtain ⟨c, -, hc⟩ := List.mem_map.mp hmem
    exact blank_ne (Or.inl rfl) hc
  · intro hmem
    obtain ⟨c, -, hc⟩ := List.mem_map.mp hmem
    exact blank_ne (Or.inr rfl) hc

/-- Text without tabs and carriage returns has plain spacing. -/
theorem plainSpacing_of_not_mem {text : String} (htab : '\t' ∉ text.toList)
    (hreturn : '\r' ∉ text.toList) : plainSpacing text = text := by
  have hsame : text.toList.map blank = text.toList := by
    conv => rhs; rw [← List.map_id text.toList]
    apply List.map_congr_left
    intro c hc
    apply blank_of_ne
    · rintro rfl
      exact htab hc
    · rintro rfl
      exact hreturn hc
  rw [← String.toList_inj, toList_plainSpacing, dropReturns_of_not_mem hreturn, hsame]

theorem plainSpacing_plainSpacing (text : String) :
    plainSpacing (plainSpacing text) = plainSpacing text :=
  plainSpacing_of_not_mem (not_mem_plainSpacing text).1 (not_mem_plainSpacing text).2

/-- The separators of a script in which words may also be kept apart by tabs and carriage
returns. -/
def looseSeparators : List Char := [' ', '\n', '\t', '\r']

theorem blank_mem_separators_iff {c : Char} :
    blank c ∈ Token.separators ↔ c ∈ looseSeparators := by
  obtain ⟨hc, hblank⟩ | ⟨htab, hreturn, hblank⟩ := blank_cases c
  · rw [hblank]
    rcases hc with rfl | rfl <;> decide
  · rw [hblank]
    simp [Token.separators, looseSeparators, htab, hreturn]

theorem blank_of_not_mem {c : Char} (h : c ∉ looseSeparators) : blank c = c := by
  apply blank_of_ne
  · rintro rfl
    exact h (by decide)
  · rintro rfl
    exact h (by decide)

/-- A scanner with two separators finds in plain spacing what one with four finds in the text. -/
theorem onePass_plain (pending cs : List Char) :
    Token.onePass Token.separators pending ((dropReturns cs).map blank) =
      Token.onePass looseSeparators pending cs := by
  fun_induction dropReturns cs generalizing pending with
  | case1 => rfl
  | case2 rest ih =>
      -- The newline ends the pending word once; so does the carriage return, after which the newline
      -- finds none.
      have hreturn : '\r' ∈ looseSeparators := by decide
      have hnewline : '\n' ∈ looseSeparators := by decide
      have hplain : blank '\n' ∈ Token.separators := by decide
      rw [List.map_cons, Token.onePass, if_pos hplain, ih, Token.onePass, if_pos hreturn,
        Token.onePass, if_pos hnewline]
      rfl
  | case3 c rest hsingle ih =>
      rw [List.map_cons, Token.onePass, Token.onePass]
      by_cases hc : c ∈ looseSeparators
      · rw [if_pos (blank_mem_separators_iff.mpr hc), if_pos hc, ih]
      · have hplain : blank c ∉ Token.separators := mt blank_mem_separators_iff.mp hc
        rw [if_neg hplain, if_neg hc, blank_of_not_mem hc, ih, ih]

/-- The lines of a text, of which the last one is not ended by a newline. -/
def lines (cs : List Char) : List (List Char) :=
  cs.splitOn '\n'

/-- How a line looks once spacing is plain: a carriage return at its end may be gone, and spaces
stand for tabs and all other carriage returns. -/
def IsPlainLine (line plain : List Char) : Prop :=
  plain = line.map blank ∨ ∃ start, line = start ++ ['\r'] ∧ plain = start.map blank

theorem IsPlainLine.cons {line plain : List Char} (h : IsPlainLine line plain) (c : Char) :
    IsPlainLine (c :: line) (blank c :: plain) := by
  rcases h with rfl | ⟨start, rfl, rfl⟩
  · exact Or.inl rfl
  · exact Or.inr ⟨c :: start, rfl, rfl⟩

/-- A character in front of the first line. -/
theorem isPlainLine_modifyHead {ls plain : List (List Char)}
    (h : List.Forall₂ IsPlainLine ls plain) (c : Char) :
    List.Forall₂ IsPlainLine (ls.modifyHead (c :: ·)) (plain.modifyHead (blank c :: ·)) := by
  cases h with
  | nil => exact .nil
  | cons hline hrest => exact .cons (hline.cons c) hrest

theorem lines_cons_newline (cs : List Char) : lines ('\n' :: cs) = [] :: lines cs :=
  List.splitOn_append_cons_self [] cs

theorem lines_cons {c : Char} (hc : c ≠ '\n') (cs : List Char) :
    lines (c :: cs) = (lines cs).modifyHead (c :: ·) := by
  unfold lines
  rw [List.splitOn_cons_eq_if_modifyHead, if_neg (by simpa using hc)]

/-- Line for line, plain spacing is the spacing of the text. -/
theorem lines_plain (cs : List Char) :
    List.Forall₂ IsPlainLine (lines cs) (lines ((dropReturns cs).map blank)) := by
  fun_induction dropReturns cs with
  | case1 => exact .cons (Or.inl rfl) .nil
  | case2 rest ih =>
      have hreturn : lines ('\r' :: '\n' :: rest) = ['\r'] :: lines rest := by
        rw [lines_cons (by decide), lines_cons_newline]
        rfl
      have hplain : lines (('\n' :: dropReturns rest).map blank) =
          [] :: lines ((dropReturns rest).map blank) := lines_cons_newline _
      rw [hreturn, hplain]
      exact .cons (Or.inr ⟨[], rfl, rfl⟩) ih
  | case3 c rest hsingle ih =>
      rw [List.map_cons]
      by_cases hc : c = '\n'
      · rw [hc, lines_cons_newline, blank_eq_newline_iff.mpr rfl, lines_cons_newline]
        exact .cons (Or.inl rfl) ih
      · rw [lines_cons hc, lines_cons (mt blank_eq_newline_iff.mp hc)]
        exact isPlainLine_modifyHead ih c

theorem count_newline_plain (cs : List Char) :
    ((dropReturns cs).map blank).count '\n' = cs.count '\n' := by
  fun_induction dropReturns cs with
  | case1 => rfl
  | case2 rest ih =>
      rw [List.map_cons, blank_eq_newline_iff.mpr rfl, List.count_cons_self, ih,
        List.count_cons_of_ne (by decide), List.count_cons_self]
  | case3 c rest hsingle ih =>
      rw [List.map_cons, List.count_cons, List.count_cons, ih]
      simp [blank_eq_newline_iff]

/-- Making spacing plain adds just two separators, tabs and carriage returns, to the spaces and newlines
that the tokenizer knows. The text has neither of them afterwards, it has the newlines that it had, and
each line comes of the line that it was. A text without the two stays as it is, so it makes no
difference to make spacing plain again. -/
theorem plain_spacing_four_separators (text : String) :
    Token.tokenize text = Token.onePass [' ', '\n'] [] text.toList ∧
    Token.tokenize (plainSpacing text) = Token.onePass [' ', '\n', '\t', '\r'] [] text.toList ∧
    ('\t' ∉ (plainSpacing text).toList ∧ '\r' ∉ (plainSpacing text).toList) ∧
    (plainSpacing text).toList.count '\n' = text.toList.count '\n' ∧
    List.Forall₂ IsPlainLine (lines text.toList) (lines (plainSpacing text).toList) ∧
    ('\t' ∉ text.toList → '\r' ∉ text.toList → plainSpacing text = text) ∧
    plainSpacing (plainSpacing text) = plainSpacing text := by
  have htokens (text : String) :
      Token.tokenize text = Token.onePass Token.separators [] text.toList := by
    rw [Token.tokenize, Token.split_eq_onePass]
  refine ⟨htokens text, ?_, not_mem_plainSpacing text, ?_, ?_, plainSpacing_of_not_mem,
    plainSpacing_plainSpacing text⟩
  · rw [htokens, toList_plainSpacing]
    exact onePass_plain [] text.toList
  · rw [toList_plainSpacing]
    exact count_newline_plain text.toList
  · rw [toList_plainSpacing]
    exact lines_plain text.toList

/-- Two carriage returns in front of a newline, one in front of a bracket, and tabs next to brackets;
and a text that is plain already. -/
theorem plain_spacing_four_separators_mixed :
    plainSpacing "repeat\t2\r\r\n[\tfd 1\r]\t" = "repeat 2 \n[ fd 1 ] " ∧
    Token.tokenize "repeat 2 \n[ fd 1 ] " =
      [⟨"repeat"⟩, ⟨"2"⟩, ⟨"["⟩, ⟨"fd"⟩, ⟨"1"⟩, ⟨"]"⟩] ∧
    ('\t' ∉ "fd 1 \n[".toList ∧ '\r' ∉ "fd 1 \n[".toList) ∧
    plainSpacing "fd 1 \n[" = "fd 1 \n[" := by
  have hmixed : plainSpacing "repeat\t2\r\r\n[\tfd 1\r]\t" = "repeat 2 \n[ fd 1 ] " := by decide
  obtain ⟨-, htokens, -⟩ := plain_spacing_four_separators "repeat\t2\r\r\n[\tfd 1\r]\t"
  obtain ⟨-, -, -, -, -, hsame, -⟩ := plain_spacing_four_separators "fd 1 \n["
  have htab : '\t' ∉ "fd 1 \n[".toList := by decide
  have hreturn : '\r' ∉ "fd 1 \n[".toList := by decide
  rw [hmixed] at htokens
  exact ⟨hmixed, htokens.trans (by decide), ⟨htab, hreturn⟩, hsame htab hreturn⟩

end Script

end TurtleScript
