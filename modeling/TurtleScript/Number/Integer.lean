/-!
Whole numbers in decimal. Digits are the ten ASCII ones. A repeat count is read from the start of
a word and ignores what follows the digits; other whole numbers take up the whole text.
-/

namespace TurtleScript

namespace Integer

/-- The value of a run of digits, most significant first. -/
def digitsValue (digits : List Char) : Nat :=
  digits.foldl (fun value c => 10 * value + (c.toNat - '0'.toNat)) 0

/-- The sign in front of a number, and the text after it. A missing sign is a plus. -/
def sign : List Char → Bool × List Char
  | '-' :: rest => (true, rest)
  | '+' :: rest => (false, rest)
  | rest => (false, rest)

def applySign (negative : Bool) (value : Nat) : Int :=
  if negative then -value else value

/-- Counts are limited to the range of a signed 64-bit word. -/
def inCountRange (value : Int) : Bool :=
  -(Nat.pow 2 63 : Int) ≤ value && value < (Nat.pow 2 63 : Int)

/-- A repeat count: an optional sign and a run of digits at the start of a word. So `4` and `4.5`
both count 4, while `x` and `.5` do not count at all. -/
def leading? (text : String) : Option Int :=
  let (negative, rest) := sign text.toList
  let digits := rest.takeWhile Char.isDigit
  let value := applySign negative (digitsValue digits)
  if !digits.isEmpty && inCountRange value then some value else none

/-- A text that is one or more digits, with an optional plus in front, and is at most `limit`. -/
def natural? (limit : Nat) (text : String) : Option Nat :=
  let digits :=
    match text.toList with
    | '+' :: rest => rest
    | rest => rest
  let value := digitsValue digits
  if !digits.isEmpty && digits.all Char.isDigit && value ≤ limit then some value else none

end Integer

end TurtleScript
