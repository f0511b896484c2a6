import Mathlib.Tactic.IntervalCases
import TurtleScript.Number.Text
import TurtleScript.Proofs.Number.Bits
import TurtleScript.Proofs.Number.Shortest
import TurtleScript.Proofs.Token.Spelling

/-!
Written numbers are read back. The digits of a decimal are read as the same decimal, or as the same
whole number if it has no places, so every finite number is read back from its text. Only digits, a
point and a sign are ever written for it, so the text is a word of a script.
-/

namespace TurtleScript

namespace Integer

theorem digitsValue_eq (digits : List Char) : digitsValue digits = Nat.ofDigitChars 10 digits 0 :=
  rfl

theorem digitsValue_toDigits (n : Nat) : digitsValue (Nat.toDigits 10 n) = n := by
  rw [digitsValue_eq, Nat.ofDigitChars_ten_toDigits]

/-- Zeros at the end multiply by ten. -/
theorem digitsValue_append_zeros (digits : List Char) (e : Nat) :
    digitsValue (digits ++ List.replicate e '0') = digitsValue digits * 10 ^ e := by
  rw [digitsValue_eq, Nat.ofDigitChars_append, Nat.ofDigitChars_replicate_zero, Nat.mul_comm]
  rfl

/-- Zeros in front do not count. -/
theorem digitsValue_zeros_append (e : Nat) (digits : List Char) :
    digitsValue (List.replicate e '0' ++ digits) = digitsValue digits := by
  rw [digitsValue_eq, Nat.ofDigitChars_append, Nat.ofDigitChars_replicate_zero, Nat.mul_zero]
  rfl

end Integer

namespace Decimal

variable {x : Decimal} {c : Char}

/-- The decimal that is read from the digits of a decimal. -/
def asRead (x : Decimal) : Decimal :=
  match x.exponent with
  | .ofNat e => ⟨x.coefficient * 10 ^ e, 0⟩
  | .negSucc _ => x

theorem magnitude_of_whole {coefficient e : Nat} (hne : coefficient ≠ 0) (he : e < 310) :
    magnitude ⟨coefficient, .ofNat e⟩ = Binary64.nearest (coefficient * 10 ^ e) 1 := by
  have hscaled : divideByPower coefficient 1 (-Int.ofNat e) = (coefficient * 10 ^ e, 1) := by
    cases e with
    | zero => simp [divideByPower]
    | succ e => rfl
  unfold magnitude
  rw [if_neg hne, if_neg (by simp only [Int.ofNat_eq_natCast]; omega),
    if_neg (by simp only [Int.ofNat_eq_natCast]; omega), hscaled]

/-- Writing out the zeros of a whole number does not change its magnitude. -/
theorem magnitude_asRead (hfinite : x.magnitude < Binary64.infinity) :
    x.asRead.magnitude = x.magnitude := by
  obtain ⟨coefficient, exponent⟩ := x
  cases exponent with
  | negSucc e => rfl
  | ofNat e =>
      change magnitude ⟨coefficient * 10 ^ e, .ofNat 0⟩ = _
      by_cases hzero : coefficient = 0
      · simp [magnitude, hzero]
      · have hsmall : e < 310 := by
          apply Nat.lt_of_not_le
          intro hlarge
          have hexponent : (310 : Int) ≤ Int.ofNat e := by
            rw [Int.ofNat_eq_natCast]
            omega
          simp only [magnitude] at hfinite
          rw [if_neg hzero, if_pos hexponent] at hfinite
          exact Nat.lt_irrefl _ hfinite
        have hproduct : coefficient * 10 ^ e ≠ 0 :=
          Nat.mul_ne_zero hzero (Nat.ne_of_gt (Nat.pow_pos (by decide)))
        rw [magnitude_of_whole hproduct (by decide), magnitude_of_whole hzero hsmall,
          Nat.pow_zero, Nat.mul_one]

theorem isDigit_of_mem_toDigits {n : Nat} (h : c ∈ Nat.toDigits 10 n) : c.isDigit = true :=
  Nat.isDigit_of_mem_toDigits (by decide) (by decide) h

theorem isDigit_of_mem_zeros {n : Nat} (h : c ∈ List.replicate n '0') : c.isDigit = true := by
  rw [List.eq_of_mem_replicate h]
  decide

/-- Digits are digits and at most a point. -/
theorem isDigit_or_point_of_mem_digits (h : c ∈ x.digits) : c.isDigit = true ∨ c = '.' := by
  obtain ⟨coefficient, exponent⟩ := x
  have hdigit : c ∈ Nat.toDigits 10 coefficient → c.isDigit = true ∨ c = '.' :=
    fun hc => Or.inl (isDigit_of_mem_toDigits hc)
  cases exponent with
  | ofNat e =>
      rcases List.mem_append.mp h with hc | hc
      · exact hdigit hc
      · exact Or.inl (isDigit_of_mem_zeros hc)
  | negSucc e =>
      simp only [digits] at h
      split at h
      · rcases List.mem_append.mp h with hc | hc
        · exact hdigit (List.mem_of_mem_take hc)
        · rcases List.mem_cons.mp hc with rfl | hc
          · exact Or.inr rfl
          · exact hdigit (List.mem_of_mem_drop hc)
      · rcases List.mem_cons.mp h with rfl | hc
        · exact Or.inl (by decide)
        · rcases List.mem_cons.mp hc with rfl | hc
          · exact Or.inr rfl
          · rcases List.mem_append.mp hc with hc | hc
            · exact Or.inl (isDigit_of_mem_zeros hc)
            · exact hdigit hc

/-- The first of the digits is no point. -/
theorem exists_digits_eq_cons (x : Decimal) :
    ∃ c cs, x.digits = c :: cs ∧ c.isDigit = true := by
  obtain ⟨coefficient, exponent⟩ := x
  have hne : Nat.toDigits 10 coefficient ≠ [] := Nat.toDigits_ne_nil
  obtain ⟨d, ds, hds⟩ := List.exists_cons_of_ne_nil hne
  have hmem : d ∈ Nat.toDigits 10 coefficient := by simp [hds]
  have hd := isDigit_of_mem_toDigits hmem
  cases exponent with
  | ofNat e => exact ⟨d, ds ++ List.replicate e '0', by simp [digits, hds], hd⟩
  | negSucc e =>
      simp only [digits, hds]
      split
      · rename_i hplaces
        obtain ⟨k, hk⟩ : ∃ k, (d :: ds).length - (e + 1) = k + 1 :=
          Nat.exists_eq_succ_of_ne_zero (by omega)
        rw [hk]
        exact ⟨d, _, rfl, hd⟩
      · exact ⟨'0', _, rfl, by decide⟩

end Decimal

namespace Number

variable {whole places : List Char}

theorem decimal?_whole (hwhole : ∀ c ∈ whole, c.isDigit = true) (hne : whole ≠ []) :
    decimal? whole = some ⟨Integer.digitsValue whole, 0⟩ := by
  have hend : ∀ c ∈ ([] : List Char).head?, c.isDigit = false := by simp
  obtain ⟨htake, hdrop⟩ := Token.span_of_stop hwhole hend
  rw [List.append_nil] at htake hdrop
  simp [decimal?, htake, hdrop, hne, exponent?]

theorem decimal?_point (hwhole : ∀ c ∈ whole, c.isDigit = true)
    (hplaces : ∀ c ∈ places, c.isDigit = true) (hne : whole ≠ []) :
    decimal? (whole ++ '.' :: places) =
      some ⟨Integer.digitsValue (whole ++ places), -places.length⟩ := by
  have hpoint : ∀ c ∈ ('.' :: places).head?, c.isDigit = false := by simp
  have hend : ∀ c ∈ ([] : List Char).head?, c.isDigit = false := by simp
  obtain ⟨htake, hdrop⟩ := Token.span_of_stop hwhole hpoint
  obtain ⟨htake', hdrop'⟩ := Token.span_of_stop hplaces hend
  rw [List.append_nil] at htake' hdrop'
  simp [decimal?, htake, hdrop, htake', hdrop', hne, exponent?]

/-- The digits of a decimal are read as that decimal. -/
theorem decimal?_digits (x : Decimal) : decimal? x.digits = some x.asRead := by
  obtain ⟨coefficient, exponent⟩ := x
  have hne : Nat.toDigits 10 coefficient ≠ [] := Nat.toDigits_ne_nil
  have hdigits : ∀ c ∈ Nat.toDigits 10 coefficient, c.isDigit = true :=
    fun c hc => Decimal.isDigit_of_mem_toDigits hc
  cases exponent with
  | ofNat e =>
      have hwhole : ∀ c ∈ Nat.toDigits 10 coefficient ++ List.replicate e '0',
          c.isDigit = true := by
        intro c hc
        rcases List.mem_append.mp hc with hc | hc
        · exact hdigits c hc
        · exact Decimal.isDigit_of_mem_zeros hc
      simp only [Decimal.digits, Decimal.asRead]
      rw [decimal?_whole hwhole (by simp [hne]), Integer.digitsValue_append_zeros,
        Integer.digitsValue_toDigits]
  | negSucc e =>
      simp only [Decimal.digits, Decimal.asRead]
      split
      · rename_i hplaces
        rw [decimal?_point, List.take_append_drop, Integer.digitsValue_toDigits,
          List.length_drop]
        · simp only [Option.some.injEq, Decimal.mk.injEq, true_and]
          omega
        · intro c hc
          exact hdigits c (List.mem_of_mem_take hc)
        · intro c hc
          exact hdigits c (List.mem_of_mem_drop hc)
        · intro hempty
          have hlength := congrArg List.length hempty
          simp only [List.length_take, List.length_nil] at hlength
          omega
      · rename_i hplaces
        change decimal? (['0'] ++ '.' :: _) = _
        rw [decimal?_point]
        · have hvalue : Integer.digitsValue (['0'] ++ (List.replicate (e + 1 -
              (Nat.toDigits 10 coefficient).length) '0' ++ Nat.toDigits 10 coefficient)) =
              coefficient := by
            rw [← List.append_assoc, ← List.replicate_one, List.replicate_append_replicate,
              Integer.digitsValue_zeros_append, Integer.digitsValue_toDigits]
          rw [hvalue, List.length_append, List.length_replicate]
          simp only [Option.some.injEq, Decimal.mk.injEq, true_and]
          omega
        · simp
        · intro c hc
          rcases List.mem_append.mp hc with hc | hc
          · exact Decimal.isDigit_of_mem_zeros hc
          · exact hdigits c hc
        · simp

/-- What holds of the ten digits holds of every digit. -/
theorem forall_isDigit {p : Char → Bool} (hp : "0123456789".toList.all p = true) {c : Char}
    (h : c.isDigit = true) : p c = true := by
  apply List.all_eq_true.mp hp
  obtain ⟨hlow, hhigh⟩ := Char.isDigit_iff_toNat.mp h
  change 48 ≤ c.toNat at hlow
  change c.toNat ≤ 57 at hhigh
  have hc : Char.ofNat c.toNat = c := Char.ofNat_toNat c
  generalize c.toNat = n at hlow hhigh hc
  subst hc
  interval_cases n <;> decide

/-- A digit is no sign, and no name starts with one. -/
theorem ne_of_isDigit {c : Char} (h : c.isDigit = true) :
    c ≠ '-' ∧ c ≠ '+' ∧ c.toLower ≠ 'i' ∧ c.toLower ≠ 'n' := by
  have hall : "0123456789".toList.all
      (fun d => d ≠ '-' ∧ d ≠ '+' ∧ d.toLower ≠ 'i' ∧ d.toLower ≠ 'n') = true := by decide
  simpa using forall_isDigit hall h

theorem isWordChar_of_isDigit {c : Char} (h : c.isDigit = true) : Token.isWordChar c = true := by
  apply forall_isDigit _ h
  decide

/-- What starts with a digit has no sign and is not a name. -/
theorem literal?_of_isDigit {c : Char} (hc : c.isDigit = true) (negative : Bool)
    (cs : List Char) :
    literal? (String.ofList (if negative then '-' :: c :: cs else c :: cs)) =
      (decimal? (c :: cs)).map (.decimal negative) := by
  obtain ⟨hminus, hplus, hi, hn⟩ := ne_of_isDigit hc
  have hsign : Integer.sign (if negative then '-' :: c :: cs else c :: cs) =
      (negative, c :: cs) := by
    cases negative with
    | true => rfl
    | false => simp [Integer.sign, hminus, hplus]
  have hnames : isInfinityName (c :: cs) = false ∧ isUndefinedName (c :: cs) = false := by
    simp [isInfinityName, isUndefinedName, hi, hn]
  simp [literal?, hsign, hnames]

/-- The magnitude of a finite number is written with digits that read as it. -/
theorem exists_text_eq {x : Float} (hfinite : Binary64.magnitude x < Binary64.infinity) :
    ∃ y : Decimal, y.magnitude = Binary64.magnitude x ∧
      text x = String.ofList
        (if Binary64.isNegative x then '-' :: y.digits else y.digits) := by
  have hdefined : ¬ Binary64.infinity < Binary64.magnitude x := Nat.not_lt_of_gt hfinite
  unfold text
  simp only
  rw [if_neg hdefined]
  by_cases hzero : Binary64.magnitude x = 0
  · refine ⟨⟨0, 0⟩, ?_, ?_⟩
    · rw [hzero]
      rfl
    · rw [if_pos hzero]
      split <;> rfl
  · refine ⟨Decimal.shortest (Binary64.magnitude x),
      Decimal.magnitude_shortest (Nat.pos_of_ne_zero hzero) hfinite, ?_⟩
    rw [if_neg hzero, if_pos hfinite]
    split <;> rfl

/-- Every finite number is read back from its text. -/
theorem finite?_text {x : Float} (hfinite : Binary64.magnitude x < Binary64.infinity) :
    finite? (text x) = some x := by
  obtain ⟨y, hmagnitude, htext⟩ := exists_text_eq hfinite
  obtain ⟨c, cs, hdigits, hc⟩ := y.exists_digits_eq_cons
  have hread : read? (text x) = some x := by
    rw [read?, htext, hdigits, literal?_of_isDigit hc, ← hdigits, decimal?_digits]
    simp only [Option.map_some, Literal.value]
    rw [Decimal.magnitude_asRead (hmagnitude ▸ hfinite), hmagnitude,
      Binary64.ofMagnitude_magnitude hfinite]
  simp [finite?, hread, hfinite]

/-- The text of a finite number is a word of a script. -/
theorem isWritten_text {x : Float} (hfinite : Binary64.magnitude x < Binary64.infinity) :
    Token.IsWritten ⟨text x⟩ := by
  obtain ⟨y, -, htext⟩ := exists_text_eq hfinite
  obtain ⟨d, ds, hdigits, -⟩ := y.exists_digits_eq_cons
  have hwords : ∀ c ∈ y.digits, Token.isWordChar c = true := by
    intro c hc
    rcases Decimal.isDigit_or_point_of_mem_digits hc with hdigit | rfl
    · exact isWordChar_of_isDigit hdigit
    · decide
  right
  rw [htext, String.toList_ofList]
  split
  · refine ⟨by simp, ?_⟩
    intro c hc
    rcases List.mem_cons.mp hc with rfl | hc
    · decide
    · exact hwords c hc
  · exact ⟨by simp [hdigits], hwords⟩

end Number

end TurtleScript
