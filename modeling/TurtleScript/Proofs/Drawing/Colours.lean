import TurtleScript.Drawing.Colour
import TurtleScript.Proofs.Number.Counts

/-!
Colour words. A word that writes a number up to 255, with a plus in front or without, is a level of grey, and
every other word is a colour as it stands. As the colour of a grey level is no number, it stands for itself,
and as numbers are told by their digits, no two levels have the same colour. So two words are the same colour
only if they are the same word or denote the same level.

A machine reads such a number one digit after the other and gives up at the first character that is no digit
and at the first digit that leads beyond the limit. Zeros in front lead nowhere, and the value never gets
smaller on the way, so it gives up exactly where the number does not fit.
-/

namespace TurtleScript

namespace Integer

/-- A whole text that is a plus or no sign, followed by one or more digits, and the number it writes. -/
def Writes (text : List Char) (n : Nat) : Prop :=
  ∃ signs digits, WritesSign signs false ∧ IsRun digits [] ∧ text = signs ++ digits ∧
    n = placeValue digits

/-- A number with one digit more, if each step of the way stays within the limit. -/
def extendWithin? (limit value : Nat) (c : Char) : Option Nat :=
  if c.isDigit ∧ 10 * value ≤ limit ∧ 10 * value + digitValue c ≤ limit then
    some (10 * value + digitValue c)
  else none

/-- A text without its plus, if it has one. -/
def withoutPlus : List Char → List Char
  | '+' :: rest => rest
  | rest => rest

/-- A number that takes up a whole text, read digit by digit. -/
def byDigits? (limit : Nat) (text : List Char) : Option Nat :=
  if withoutPlus text = [] then none else (withoutPlus text).foldlM (extendWithin? limit) 0

section

variable {limit m n : Nat} {signs digits : List Char}

/-- Every text is a plus, which may be missing, and the text after it. -/
theorem exists_plus (text : List Char) :
    ∃ signs, WritesSign signs false ∧ text = signs ++ withoutPlus text := by
  fun_cases withoutPlus text with
  | case1 rest => exact ⟨['+'], .plus, rfl⟩
  | case2 => exact ⟨[], .none, rfl⟩

theorem withoutPlus_append (hsign : WritesSign signs false) (hrun : IsRun digits []) :
    withoutPlus (signs ++ digits) = digits := by
  cases hsign with
  | plus => rfl
  | none =>
      obtain ⟨c, cs, rfl⟩ := List.exists_cons_of_ne_nil hrun.nonempty
      obtain ⟨-, hplus, -⟩ := Number.ne_of_isDigit (hrun.all_digits c List.mem_cons_self)
      simp [withoutPlus, hplus]

theorem natural?_eq (limit : Nat) (text : String) :
    natural? limit text =
      if withoutPlus text.toList ≠ [] ∧ (∀ c ∈ withoutPlus text.toList, c.isDigit = true) ∧
          digitsValue (withoutPlus text.toList) ≤ limit then
        some (digitsValue (withoutPlus text.toList))
      else none := by
  change (if !(withoutPlus text.toList).isEmpty && (withoutPlus text.toList).all Char.isDigit &&
      decide (digitsValue (withoutPlus text.toList) ≤ limit) then
        some (digitsValue (withoutPlus text.toList)) else none) = _
  simp [and_assoc]

/-- A text is read as a number if it writes one within the limit, and only then. -/
theorem natural?_iff (text : String) :
    natural? limit text = some n ↔ Writes text.toList n ∧ n ≤ limit := by
  rw [natural?_eq]
  constructor
  · intro h
    split at h
    · rename_i hread
      obtain ⟨hne, hdigits, hlimit⟩ := hread
      obtain ⟨signs, hsign, htext⟩ := exists_plus text.toList
      have hrun : IsRun (withoutPlus text.toList) [] := ⟨hne, hdigits, fun _ hc => nomatch hc⟩
      cases h
      exact ⟨⟨signs, _, hsign, hrun, htext, digitsValue_eq_placeValue _⟩, hlimit⟩
    · cases h
  · rintro ⟨⟨signs, digits, hsign, hrun, htext, rfl⟩, hlimit⟩
    rw [← digitsValue_eq_placeValue] at hlimit ⊢
    rw [htext, withoutPlus_append hsign hrun, if_pos ⟨hrun.nonempty, hrun.all_digits, hlimit⟩]

theorem natural?_eq_none_iff (text : String) :
    natural? limit text = none ↔ ¬ ∃ n ≤ limit, Writes text.toList n := by
  rw [Option.eq_none_iff_forall_ne_some]
  simp only [ne_eq, natural?_iff, not_exists, not_and]
  exact forall_congr' fun n => imp_not_comm

/-- Digit by digit, a number is read if there are digits only and all of it is within the limit. -/
theorem foldlM_extendWithin? (hm : m ≤ limit) (text : List Char) :
    text.foldlM (extendWithin? limit) m =
      if (∀ c ∈ text, c.isDigit = true) ∧ Nat.ofDigitChars 10 text m ≤ limit then
        some (Nat.ofDigitChars 10 text m)
      else none := by
  induction text generalizing m with
  | nil => simp [hm]
  | cons c text ih =>
      have hcons : Nat.ofDigitChars 10 (c :: text) m =
          Nat.ofDigitChars 10 text (10 * m + digitValue c) := Nat.ofDigitChars_cons
      rw [List.foldlM_cons, hcons]
      by_cases hfits : c.isDigit = true ∧ 10 * m + digitValue c ≤ limit
      · obtain ⟨hdigit, hle⟩ := hfits
        have hshifted : 10 * m ≤ limit := Nat.le_trans (Nat.le_add_right _ _) hle
        rw [extendWithin?, if_pos ⟨hdigit, hshifted, hle⟩]
        simpa [hdigit] using ih hle
      · have hstep : extendWithin? limit m c = none := if_neg fun h => hfits ⟨h.1, h.2.2⟩
        rw [hstep, if_neg]
        · rfl
        · -- What comes after does not make the number smaller, so it would have to fit here already.
          rintro ⟨hdigits, hle⟩
          exact hfits ⟨hdigits c List.mem_cons_self, Nat.le_trans (le_ofDigitChars _ text) hle⟩

/-- A number is read digit by digit as it is read at once. -/
theorem natural?_eq_byDigits? (limit : Nat) (text : String) :
    natural? limit text = byDigits? limit text.toList := by
  rw [natural?_eq, byDigits?]
  by_cases hne : withoutPlus text.toList = []
  · simp [hne]
  · rw [if_neg hne, foldlM_extendWithin? (Nat.zero_le limit), ← digitsValue_eq]
    simp [hne]

end

end Integer

namespace Colour

/-- The level of grey that a word stands for: the one it writes, or the one whose colour it spells out. -/
def Denotes (word : String) (level : Nat) : Prop :=
  Integer.Writes word.toList level ∨ word = grey level

section

variable {word : String} {level a b : Nat}

/-- The digits of a level can be found in its colour. -/
theorem digits_grey (level : Nat) :
    ((grey level).toList.drop 4).takeWhile Char.isDigit = Nat.toDigits 10 level := by
  have hcomma : ∀ c ∈ ("," ++ Nat.repr level ++ "," ++ Nat.repr level ++ ")").toList.head?,
      c.isDigit = false := by
    simp
  obtain ⟨htake, -⟩ := Token.span_of_stop
    (fun _ => Decimal.isDigit_of_mem_toDigits (n := level)) hcomma
  simpa [grey] using htake

theorem grey_injective (h : grey a = grey b) : a = b := by
  rw [← Integer.digitsValue_toDigits a, ← digits_grey, h, digits_grey, Integer.digitsValue_toDigits]

/-- The colour of a level is no number. -/
theorem natural?_grey (limit level : Nat) : Integer.natural? limit (grey level) = none := by
  rw [Integer.natural?_eq, if_neg]
  rintro ⟨-, hdigits, -⟩
  have hfirst : 'r' ∈ Integer.withoutPlus (grey level).toList := by
    simp [grey, Integer.withoutPlus]
  exact absurd (hdigits 'r' hfirst) (by decide)

theorem ofWord_of_writes (hwrites : Integer.Writes word.toList level) (hlevel : level ≤ white) :
    ofWord word = grey level := by
  rw [ofWord, (Integer.natural?_iff word).mpr ⟨hwrites, hlevel⟩]

theorem ofWord_of_not_writes (h : ¬ ∃ level ≤ white, Integer.Writes word.toList level) :
    ofWord word = word := by
  rw [ofWord, (Integer.natural?_eq_none_iff word).mpr h]

theorem ofWord_grey (level : Nat) : ofWord (grey level) = grey level := by
  rw [ofWord, natural?_grey]

theorem ofWord_of_denotes (h : Denotes word level) (hlevel : level ≤ white) :
    ofWord word = grey level := by
  rcases h with hwrites | rfl
  · exact ofWord_of_writes hwrites hlevel
  · exact ofWord_grey level

/-- A word denotes a level and has its colour, or it is a colour itself. -/
theorem ofWord_cases (word : String) :
    (∃ level ≤ white, Integer.Writes word.toList level ∧ ofWord word = grey level) ∨
      ofWord word = word := by
  by_cases h : ∃ level ≤ white, Integer.Writes word.toList level
  · obtain ⟨level, hlevel, hwrites⟩ := h
    exact .inl ⟨level, hlevel, hwrites, ofWord_of_writes hwrites hlevel⟩
  · exact .inr (ofWord_of_not_writes h)

theorem ofWord_ofWord (word : String) : ofWord (ofWord word) = ofWord word := by
  rcases ofWord_cases word with ⟨level, -, -, hcolour⟩ | hcolour
  · rw [hcolour, ofWord_grey]
  · rw [hcolour, hcolour]

/-- Two words are the same colour if they are the same word or denote the same level, and only then. -/
theorem ofWord_eq_iff (v w : String) :
    ofWord v = ofWord w ↔ v = w ∨ ∃ level ≤ white, Denotes v level ∧ Denotes w level := by
  constructor
  · intro h
    rcases ofWord_cases v with ⟨a, ha, hv, hcolour⟩ | hv
    · rcases ofWord_cases w with ⟨b, hb, hw, hcolour'⟩ | hw
      · obtain rfl : a = b := grey_injective (hcolour.symm.trans (h.trans hcolour'))
        exact .inr ⟨a, ha, .inl hv, .inl hw⟩
      · exact .inr ⟨a, ha, .inl hv, .inr (hw.symm.trans (h.symm.trans hcolour))⟩
    · rcases ofWord_cases w with ⟨b, hb, hw, hcolour'⟩ | hw
      · exact .inr ⟨b, hb, .inr (hv.symm.trans (h.trans hcolour')), .inl hw⟩
      · exact .inl (hv.symm.trans (h.trans hw))
  · rintro (rfl | ⟨level, hlevel, hv, hw⟩)
    · rfl
    · rw [ofWord_of_denotes hv hlevel, ofWord_of_denotes hw hlevel]

end

/-- Every word is classified. If it writes a number up to 255, its colour is that level of grey, spelt out
without zeros in front; any other word is its own colour. So a colour is its own colour, and different words
are the same colour exactly if they denote the same level. Reading the number digit by digit makes no
difference. -/
theorem words_classified :
    (∀ word level, Integer.Writes word.toList level → level ≤ 255 →
      ofWord word = "rgb(" ++ Nat.repr level ++ "," ++ Nat.repr level ++ "," ++ Nat.repr level ++ ")") ∧
    (∀ word, (¬ ∃ level ≤ 255, Integer.Writes word.toList level) → ofWord word = word) ∧
    (∀ word, ofWord (ofWord word) = ofWord word) ∧
    (∀ v w, ofWord v = ofWord w ↔ v = w ∨ ∃ level ≤ 255, Denotes v level ∧ Denotes w level) ∧
    ∀ word, Integer.natural? white word = Integer.byDigits? 255 word.toList := by
  refine ⟨?_, ?_, ofWord_ofWord, ofWord_eq_iff, Integer.natural?_eq_byDigits? white⟩
  · intro word level hwrites hlevel
    exact ofWord_of_writes hwrites hlevel
  · intro word hother
    exact ofWord_of_not_writes hother

/-- The greatest level with a plus and zeros in front, its colour spelt out, and the number after it. -/
theorem words_classified_white :
    (Integer.Writes "+00255".toList 255 ∧ ofWord "+00255" = "rgb(255,255,255)") ∧
    ((¬ ∃ level ≤ 255, Integer.Writes "256".toList level) ∧ ofWord "256" = "256") ∧
    (Denotes "rgb(255,255,255)" 255 ∧ ofWord "+00255" = ofWord "rgb(255,255,255)") := by
  obtain ⟨hgrey, hother, -, hsame, -⟩ := words_classified
  have hread : Integer.natural? 255 "+00255" = some 255 := by decide +kernel
  have hbeyond : Integer.natural? 255 "256" = none := by decide +kernel
  have hspelt : "rgb(255,255,255)" = grey 255 := by decide +kernel
  obtain ⟨hwrites, hlevel⟩ := (Integer.natural?_iff "+00255").mp hread
  have hnone := (Integer.natural?_eq_none_iff "256").mp hbeyond
  refine ⟨⟨hwrites, ?_⟩, ⟨hnone, hother "256" hnone⟩, .inr hspelt, ?_⟩
  · rw [hspelt]
    exact hgrey "+00255" 255 hwrites hlevel
  · apply (hsame "+00255" "rgb(255,255,255)").mpr
    exact .inr ⟨255, hlevel, .inl hwrites, .inr hspelt⟩

end Colour

end TurtleScript
