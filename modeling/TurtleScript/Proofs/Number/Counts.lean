import Mathlib.Data.Nat.Digits.Defs
import TurtleScript.Proofs.Number.ReadBack

/-!
Repeat counts. A count is read from the start of a word: a sign or none, and then as many digits as
there are. It is the number that these write, however many zeros it starts with, if that number fits
into a signed 64-bit word, whose range has one more number below zero than above. What follows the
digits makes no difference.

A second way to read a count cuts the sign and the digits off first and reads them as a word of the
machine, one digit after the other, giving up at the first one that does not fit. As the magnitude
never gets smaller on the way, this gives up exactly where the whole number does not fit.
-/

namespace TurtleScript

namespace Integer

def digitValue (c : Char) : Nat :=
  c.toNat - '0'.toNat

/-- What digits stand for: each counts ten times as much as the one after it. -/
def placeValue (digits : List Char) : Nat :=
  Nat.ofDigits 10 (digits.reverse.map digitValue)

theorem digitsValue_eq_placeValue (digits : List Char) :
    digitsValue digits = placeValue digits := by
  have hstep (value : Nat) (c : Char) :
      10 * value + (c.toNat - '0'.toNat) = digitValue c + 10 * value := Nat.add_comm _ _
  rw [placeValue, Nat.ofDigits_eq_foldr, List.foldr_map, List.foldr_reverse, digitsValue]
  simp only [hstep]
  rfl

/-- The ways to write a sign, and whether it is a minus. -/
inductive WritesSign : List Char → Bool → Prop
  | none : WritesSign [] false
  | plus : WritesSign ['+'] false
  | minus : WritesSign ['-'] true

/-- Digits that are as many as there are in front of the rest of a text. -/
structure IsRun (digits rest : List Char) : Prop where
  nonempty : digits ≠ []
  all_digits : ∀ c ∈ digits, c.isDigit = true
  stops : ∀ c ∈ rest.head?, c.isDigit = false

/-- A text that begins with a number: its sign, its digits, and anything else. -/
def Begins (text : List Char) (n : Int) : Prop :=
  ∃ sign negative digits rest, WritesSign sign negative ∧ IsRun digits rest ∧
    text = sign ++ digits ++ rest ∧
    n = if negative then -(placeValue digits : Int) else placeValue digits

section

variable {negative : Bool} {signs digits rest : List Char}

theorem inCountRange_iff {value : Int} :
    inCountRange value = true ↔ -2 ^ 63 ≤ value ∧ value ≤ 2 ^ 63 - 1 := by
  have hpow : (Nat.pow 2 63 : Int) = 2 ^ 63 := by decide
  simp only [inCountRange, hpow, Bool.and_eq_true, decide_eq_true_eq]
  omega

theorem applySign_eq_placeValue :
    applySign negative (digitsValue digits) =
      if negative then -(placeValue digits : Int) else placeValue digits := by
  rw [digitsValue_eq_placeValue, applySign]

/-- A sign in front of digits is taken for the sign of the number. -/
theorem sign_append (hsign : WritesSign signs negative) (hrun : IsRun digits rest) :
    sign (signs ++ digits ++ rest) = (negative, digits ++ rest) := by
  cases hsign with
  | plus => rfl
  | minus => rfl
  | none =>
      obtain ⟨c, cs, rfl⟩ := List.exists_cons_of_ne_nil hrun.nonempty
      obtain ⟨hminus, hplus, -⟩ := Number.ne_of_isDigit (hrun.all_digits c List.mem_cons_self)
      simp [sign, hminus, hplus]

/-- Every text is a sign, which may be missing, and the text after it. -/
theorem exists_writesSign (text : List Char) :
    ∃ signs, WritesSign signs (sign text).1 ∧ text = signs ++ (sign text).2 := by
  fun_cases sign text with
  | case1 rest => exact ⟨['-'], .minus, rfl⟩
  | case2 rest => exact ⟨['+'], .plus, rfl⟩
  | case3 => exact ⟨[], .none, rfl⟩

/-- Digits taken off a text are a run, unless there are none. -/
theorem isRun_takeWhile {text : List Char} (hne : text.takeWhile Char.isDigit ≠ []) :
    IsRun (text.takeWhile Char.isDigit) (text.dropWhile Char.isDigit) where
  nonempty := hne
  all_digits := List.all_eq_true.mp List.all_takeWhile
  stops := Token.stops_dropWhile text

/-- The count of a text that begins with a number, if the number is in the range of counts. -/
theorem leading?_append (hsign : WritesSign signs negative) (hrun : IsRun digits rest) :
    leading? (String.ofList (signs ++ digits ++ rest)) =
      if inCountRange (applySign negative (digitsValue digits)) then
        some (applySign negative (digitsValue digits))
      else none := by
  obtain ⟨htake, -⟩ := Token.span_of_stop hrun.all_digits hrun.stops
  simp only [leading?, String.toList_ofList, sign_append hsign hrun, htake]
  simp [hrun.nonempty]

theorem leading?_iff (text : String) (n : Int) :
    leading? text = some n ↔ Begins text.toList n ∧ -2 ^ 63 ≤ n ∧ n ≤ 2 ^ 63 - 1 := by
  constructor
  · intro h
    obtain ⟨signs, hsign, htext⟩ := exists_writesSign text.toList
    simp only [leading?] at h
    split at h
    · rename_i hread
      simp only [Bool.and_eq_true, Bool.not_eq_true', List.isEmpty_eq_false_iff] at hread
      obtain ⟨hne, hrange⟩ := hread
      cases h
      refine ⟨⟨signs, _, _, _, hsign, isRun_takeWhile hne, ?_, applySign_eq_placeValue⟩,
        inCountRange_iff.mp hrange⟩
      rw [List.append_assoc, List.takeWhile_append_dropWhile]
      exact htext
    · cases h
  · rintro ⟨⟨signs, negative, digits, rest, hsign, hrun, htext, hn⟩, hrange⟩
    rw [← applySign_eq_placeValue] at hn
    subst hn
    rw [← String.ofList_toList (s := text), htext, leading?_append hsign hrun,
      if_pos (inCountRange_iff.mpr hrange)]

/-- The decimal text of a number begins with that number, whatever follows that is no digit. -/
theorem begins_repr (n : Int) {suffix : String}
    (hsuffix : ∀ c ∈ suffix.toList.head?, c.isDigit = false) :
    Begins (Int.repr n ++ suffix).toList n := by
  have hrun (m : Nat) : IsRun (Nat.toDigits 10 m) suffix.toList :=
    ⟨Nat.toDigits_ne_nil, fun _ => Decimal.isDigit_of_mem_toDigits, hsuffix⟩
  have hvalue (m : Nat) : placeValue (Nat.toDigits 10 m) = m := by
    rw [← digitsValue_eq_placeValue, digitsValue_toDigits]
  cases n with
  | ofNat m =>
      refine ⟨[], false, Nat.toDigits 10 m, suffix.toList, .none, hrun m, ?_, ?_⟩
      · simp [Int.repr]
      · simp [hvalue]
  | negSucc m =>
      refine ⟨['-'], true, Nat.toDigits 10 (m + 1), suffix.toList, .minus, hrun (m + 1), ?_, ?_⟩
      · simp [Int.repr]
      · simp [hvalue, Int.negSucc_eq]

end

/-- The sign and the digits that a text starts with, if there are digits. -/
def recognized? (text : List Char) : Option (List Char) :=
  let left := (sign text).2.dropWhile Char.isDigit
  if (sign text).2.takeWhile Char.isDigit = [] then none
  else some (text.take (text.length - left.length))

/-- A number with one digit more, if each step of the way stays in the range of counts. -/
def extend? (negative : Bool) (value : Int) (c : Char) : Option Int :=
  let shifted := 10 * value
  let extended := if negative then shifted - digitValue c else shifted + digitValue c
  if inCountRange shifted && inCountRange extended then some extended else none

/-- A text that is a sign, which may be missing, and one or more digits, read digit by digit. -/
def machineWord? (text : List Char) : Option Int :=
  let negative := (sign text).1
  let digits := (sign text).2
  if digits ≠ [] ∧ digits.all Char.isDigit then digits.foldlM (extend? negative) 0 else none

section

variable {negative : Bool} {signs digits rest : List Char} {m n : Nat}

/-- A smaller magnitude fits where a greater one does. -/
theorem inCountRange_of_le (hle : m ≤ n) (h : inCountRange (applySign negative n) = true) :
    inCountRange (applySign negative m) = true := by
  rw [inCountRange_iff] at h ⊢
  cases negative with
  | false =>
      simp only [applySign, Bool.false_eq_true, if_false] at h ⊢
      omega
  | true =>
      simp only [applySign, if_true] at h ⊢
      omega

/-- A magnitude never gets smaller by further digits. -/
theorem le_ofDigitChars (m : Nat) (digits : List Char) : m ≤ Nat.ofDigitChars 10 digits m := by
  induction digits generalizing m with
  | nil => exact Nat.le_refl m
  | cons c digits ih =>
      rw [Nat.ofDigitChars_cons]
      exact Nat.le_trans (by omega) (ih _)

/-- One step gives up exactly where the extended number does not fit. -/
theorem extend?_applySign (negative : Bool) (m : Nat) (c : Char) :
    extend? negative (applySign negative m) c =
      if inCountRange (applySign negative (10 * m + digitValue c)) then
        some (applySign negative (10 * m + digitValue c))
      else none := by
  have hshifted : 10 * applySign negative m = applySign negative (10 * m) := by
    cases negative <;> simp [applySign]
  have hextended : (if negative then applySign negative (10 * m) - digitValue c
      else applySign negative (10 * m) + digitValue c) =
        applySign negative (10 * m + digitValue c) := by
    cases negative with
    | false => simp [applySign]
    | true =>
        simp only [applySign, if_true]
        omega
  have hfits : inCountRange (applySign negative (10 * m + digitValue c)) = true →
      inCountRange (applySign negative (10 * m)) = true :=
    inCountRange_of_le (Nat.le_add_right _ _)
  simp only [extend?, hshifted, hextended]
  cases hrange : inCountRange (applySign negative (10 * m + digitValue c)) with
  | false => simp
  | true => simp [hfits hrange]

/-- Digit by digit, a number is read exactly if all of it fits. -/
theorem foldlM_extend? (hm : inCountRange (applySign negative m) = true) (digits : List Char) :
    digits.foldlM (extend? negative) (applySign negative m) =
      if inCountRange (applySign negative (Nat.ofDigitChars 10 digits m)) then
        some (applySign negative (Nat.ofDigitChars 10 digits m))
      else none := by
  induction digits generalizing m with
  | nil => simp [hm]
  | cons c digits ih =>
      have hcons : Nat.ofDigitChars 10 (c :: digits) m =
          Nat.ofDigitChars 10 digits (10 * m + digitValue c) := Nat.ofDigitChars_cons
      rw [List.foldlM_cons, extend?_applySign, hcons]
      cases hrange : inCountRange (applySign negative (10 * m + digitValue c)) with
      | true => exact ih hrange
      | false =>
          have hlater : inCountRange
              (applySign negative (Nat.ofDigitChars 10 digits (10 * m + digitValue c))) = false := by
            rw [Bool.eq_false_iff] at hrange ⊢
            exact mt (inCountRange_of_le (le_ofDigitChars _ digits)) hrange
          rw [hlater]
          rfl

/-- A sign and digits are read digit by digit as they are read at once. -/
theorem machineWord?_append (hsign : WritesSign signs negative) (hrun : IsRun digits []) :
    machineWord? (signs ++ digits) =
      if inCountRange (applySign negative (digitsValue digits)) then
        some (applySign negative (digitsValue digits))
      else none := by
  have hsplit : sign (signs ++ digits) = (negative, digits) := by
    simpa using sign_append hsign hrun
  have hall : digits.all Char.isDigit = true := List.all_eq_true.mpr hrun.all_digits
  have hzero : applySign negative 0 = 0 := by cases negative <;> rfl
  have hfits : inCountRange (applySign negative 0) = true := by
    rw [hzero]
    decide
  have hfold := foldlM_extend? hfits digits
  rw [hzero] at hfold
  simp only [machineWord?, hsplit]
  rw [if_pos ⟨hrun.nonempty, hall⟩, hfold, digitsValue_eq]

theorem recognized?_append (hsign : WritesSign signs negative) (hrun : IsRun digits rest) :
    recognized? (signs ++ digits ++ rest) = some (signs ++ digits) := by
  obtain ⟨htake, hdrop⟩ := Token.span_of_stop hrun.all_digits hrun.stops
  have hlength : (signs ++ digits ++ rest).length - rest.length = (signs ++ digits).length := by
    rw [List.length_append]
    exact Nat.add_sub_cancel _ _
  simp only [recognized?, sign_append hsign hrun, htake, hdrop]
  rw [if_neg hrun.nonempty, hlength, List.take_left]

/-- Cutting the number off and reading it as a word of the machine gives the same count. -/
theorem leading?_eq_bind (text : String) :
    leading? text = (recognized? text.toList).bind machineWord? := by
  by_cases hne : (sign text.toList).2.takeWhile Char.isDigit = []
  · simp [leading?, recognized?, hne]
  · obtain ⟨signs, hsign, htext⟩ := exists_writesSign text.toList
    have hrun := isRun_takeWhile hne
    have hwhole : IsRun ((sign text.toList).2.takeWhile Char.isDigit) [] :=
      ⟨hrun.nonempty, hrun.all_digits, fun _ hc => nomatch hc⟩
    have hparts : text.toList = signs ++ (sign text.toList).2.takeWhile Char.isDigit ++
        (sign text.toList).2.dropWhile Char.isDigit := by
      rw [List.append_assoc, List.takeWhile_append_dropWhile]
      exact htext
    have hleading := leading?_append hsign hrun
    have hrecognized := recognized?_append hsign hrun
    rw [← hparts] at hleading hrecognized
    rw [String.ofList_toList] at hleading
    rw [hleading, hrecognized, Option.bind_some, machineWord?_append hsign hwhole]

end

/-- Counts are read exactly. A text has a count if and only if it begins with a number in the range of a
signed 64-bit word, and then the number is the count. What follows the digits never matters, the decimal
text of each number in range is read as the number, and reading in two steps makes no difference. -/
theorem counts_read_exactly :
    (∀ (text : String) (n : Int),
      leading? text = some n ↔ Begins text.toList n ∧ -2 ^ 63 ≤ n ∧ n ≤ 2 ^ 63 - 1) ∧
    (∀ (signs : List Char) (negative : Bool) (digits rest other : List Char),
      WritesSign signs negative → IsRun digits rest → IsRun digits other →
        leading? (String.ofList (signs ++ digits ++ rest)) =
          leading? (String.ofList (signs ++ digits ++ other))) ∧
    (∀ n : Int, -2 ^ 63 ≤ n → n ≤ 2 ^ 63 - 1 →
      ∀ suffix : String, (∀ c ∈ suffix.toList.head?, c.isDigit = false) →
        leading? (Int.repr n ++ suffix) = some n) ∧
    ∀ text : String, leading? text = (recognized? text.toList).bind machineWord? := by
  refine ⟨leading?_iff, ?_, ?_, leading?_eq_bind⟩
  · intro signs negative digits rest other hsign hrest hother
    rw [leading?_append hsign hrest, leading?_append hsign hother]
  · intro n hlow hhigh suffix hsuffix
    exact (leading?_iff _ n).mpr ⟨begins_repr n hsuffix, hlow, hhigh⟩

/-- The least count in front of a digit that is none of the ten, the number after the greatest, and
zeros in front with and without something after them. -/
theorem counts_read_exactly_bounds :
    (∀ c ∈ "٣.5".toList.head?, c.isDigit = false) ∧
    leading? "-9223372036854775808٣.5" = some (-2 ^ 63) ∧
    ¬ Begins "x7".toList 7 ∧ leading? "9223372036854775808" = none ∧
    (WritesSign ['+'] false ∧ IsRun "007".toList "x".toList ∧ IsRun "007".toList []) ∧
    leading? "+007x" = leading? "+007" := by
  obtain ⟨hiff, hrest, hrepr, hsteps⟩ := counts_read_exactly
  have hsuffix : ∀ c ∈ "٣.5".toList.head?, c.isDigit = false := by simp
  have hleast : Int.repr (-2 ^ 63) ++ "٣.5" = "-9223372036854775808٣.5" := by decide +kernel
  have hx : IsRun "007".toList "x".toList := ⟨by simp, by simp, by simp⟩
  have hnone : IsRun "007".toList [] := ⟨by simp, by simp, by simp⟩
  refine ⟨hsuffix, ?_, ?_, ?_, ⟨.plus, hx, hnone⟩, ?_⟩
  · rw [← hleast]
    exact hrepr (-2 ^ 63) (by decide) (by decide) "٣.5" hsuffix
  · intro hbegins
    have hcount := (hiff "x7" 7).mpr ⟨hbegins, by decide, by decide⟩
    exact absurd hcount (by decide +kernel)
  · rw [hsteps]
    decide +kernel
  · exact hrest ['+'] false "007".toList "x".toList [] .plus hx hnone

end Integer

end TurtleScript
