import TurtleScript.Number.Integer
import TurtleScript.Number.Decimal

/-!
Numbers as words of a script and as words of the output. A number is read as a decimal with an
optional point and an optional exponent, or as one of the names of infinity and of the undefined
number. It is written with the fewest digits that read back and without an exponent.
-/

namespace TurtleScript

namespace Number

inductive Literal where
  | decimal (negative : Bool) (value : Decimal)
  | infinity (negative : Bool)
  | undefined
  deriving DecidableEq, Repr

/-- The exponent at the end of a number: nothing, or `e`, an optional sign and digits. -/
def exponent? : List Char → Option Int
  | [] => some 0
  | c :: cs =>
      let (negative, ds) := Integer.sign cs
      if c.toLower == 'e' && !ds.isEmpty && ds.all Char.isDigit then
        some (Integer.applySign negative (Integer.digitsValue ds))
      else none

/-- A number without a sign. One digit before or after the point is enough. -/
def decimal? (cs : List Char) : Option Decimal :=
  let whole := cs.takeWhile Char.isDigit
  let afterWhole := cs.dropWhile Char.isDigit
  let (places, rest) :=
    match afterWhole with
    | '.' :: ds => (ds.takeWhile Char.isDigit, ds.dropWhile Char.isDigit)
    | _ => ([], afterWhole)
  if whole.isEmpty && places.isEmpty then none
  else
    (exponent? rest).map fun e =>
      ⟨Integer.digitsValue (whole ++ places), e - places.length⟩

def isInfinityName (cs : List Char) : Bool :=
  cs.map Char.toLower == "inf".toList || cs.map Char.toLower == "infinity".toList

def isUndefinedName (cs : List Char) : Bool :=
  cs.map Char.toLower == "nan".toList

def literal? (text : String) : Option Literal :=
  let (negative, cs) := Integer.sign text.toList
  if isInfinityName cs then some (.infinity negative)
  else if isUndefinedName cs then some .undefined
  else (decimal? cs).map (.decimal negative)

def Literal.value : Literal → Float
  | .decimal negative x => Binary64.ofMagnitude negative x.magnitude
  | .infinity negative => Binary64.ofMagnitude negative Binary64.infinity
  | .undefined => Binary64.ofMagnitude false (Binary64.infinity + Nat.pow 2 51)

/-- Any number, infinite and undefined ones included. -/
def read? (text : String) : Option Float :=
  (literal? text).map Literal.value

/-- The numbers a script can name are finite. -/
def finite? (text : String) : Option Float :=
  (read? text).filter fun x => Binary64.magnitude x < Binary64.infinity

def text (x : Float) : String :=
  let magnitude := Binary64.magnitude x
  let digits :=
    if magnitude = 0 then "0".toList
    else if magnitude < Binary64.infinity then (Decimal.shortest magnitude).digits
    else "inf".toList
  if Binary64.infinity < magnitude then "NaN"
  else if Binary64.isNegative x then String.ofList ('-' :: digits)
  else String.ofList digits

end Number

end TurtleScript
