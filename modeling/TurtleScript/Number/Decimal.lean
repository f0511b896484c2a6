import TurtleScript.Number.Binary64

/-!
Decimals `c * 10 ^ k` with a natural number `c`: the floating-point number that one reads as, the
shortest one that reads as a given number, and its text without an exponent.
-/

namespace TurtleScript

structure Decimal where
  coefficient : Nat
  exponent : Int
  deriving DecidableEq, Repr

namespace Decimal

/-- The ratio `n / d` divided by ten to the given power. -/
def divideByPower (n d : Nat) : Int → Nat × Nat
  | .ofNat e => (n, d * Nat.pow 10 e)
  | .negSucc e => (n * Nat.pow 10 (e + 1), d)

/-- The magnitude nearest to a decimal. Above `10 ^ 310` that is infinity, and a decimal below
`2 ^ -1080` is nearest to zero; the first tests spare the large powers of ten. -/
def magnitude (x : Decimal) : Nat :=
  if x.coefficient = 0 then 0
  else if 310 ≤ x.exponent then Binary64.infinity
  else if (x.coefficient.log2 : Int) + 1081 + 3 * x.exponent < 0 then 0
  else
    let (n, d) := divideByPower x.coefficient 1 (-x.exponent)
    Binary64.nearest n d

/-- A finite magnitude as a decimal, with all its digits. -/
def exact (magnitude : Nat) : Decimal :=
  let (mantissa, power) := Binary64.parts magnitude
  match power with
  | .ofNat e => ⟨mantissa * Nat.pow 2 e, 0⟩
  | .negSucc e => ⟨mantissa * Nat.pow 5 (e + 1), .negSucc e⟩

/-- A number among the multiples of a power of ten. -/
structure Grid where
  exponent : Int
  /-- The number in halves of the power of ten, rounded down. -/
  halves : Nat
  /-- The multiples from `least` to `greatest` are nearer to the number than to any other
  magnitude. -/
  least : Nat
  greatest : Nat
  deriving DecidableEq, Repr

/-- A positive finite magnitude on a grid where it has up to eighteen digits. The next magnitudes
are a unit of the last mantissa bit away, below a power of two half a unit, and a number halfway to
one of them belongs to the one with the even mantissa. Lengths are counted in quarters of that
unit. -/
def grid (magnitude : Nat) : Grid :=
  let (mantissa, power) := Binary64.parts magnitude
  let k := ((mantissa.log2 : Int) + power + 1) * 30103 / 100000 - 17
  let (n, d) := Binary64.divideByPower 1 1 (2 - power)
  let (n, d) := divideByPower n d k
  let gap := if magnitude % Nat.pow 2 52 = 0 && 1 < magnitude / Nat.pow 2 52 then 1 else 2
  let low := (4 * mantissa - gap) * n
  let high := (4 * mantissa + 2) * n
  let isEven := mantissa % 2 == 0
  { exponent := k
    halves := 8 * mantissa * n / d
    least := if isEven && low % d == 0 then low / d else low / d + 1
    greatest := if isEven || high % d != 0 then high / d else high / d - 1 }

/-- The nearest multiple of the power of ten that is greater by `places`, if it is one of those that
read as the number. Halfway between two multiples the greater one is taken. -/
def Grid.nearest? (g : Grid) (places : Nat) : Option Decimal :=
  let step := Nat.pow 10 places
  let below := g.halves / (2 * step)
  let belowReads := g.least ≤ below * step
  let aboveReads := (below + 1) * step ≤ g.greatest
  let isLow := g.halves % (2 * step) < step
  if belowReads && (isLow || !aboveReads) then some ⟨below, g.exponent + places⟩
  else if aboveReads then some ⟨below + 1, g.exponent + places⟩
  else none

/-- The nearest multiple on the coarsest grid that has one which reads as the number. -/
def Grid.coarsest? (g : Grid) : (places : Nat) → Option Decimal
  | 0 => g.nearest? 0
  | places + 1 =>
      match g.nearest? (places + 1) with
      | some x => some x
      | none => g.coarsest? places

/-- The decimal with the fewest digits that reads as a positive finite magnitude, and of those the
nearest to it. A coarser grid has fewer digits, and seventeen digits always suffice. The decimal is
read once more, so that reading it back is certain whatever the grid says. -/
def shortest (magnitude : Nat) : Decimal :=
  (((grid magnitude).coarsest? 18).filter fun x => x.magnitude == magnitude).getD
    (exact magnitude)

/-- The digits of a decimal with a point where its exponent says, never with an exponent. A whole
number has no point, and a number below one has a zero in front of it. -/
def digits (x : Decimal) : List Char :=
  let ds := Nat.toDigits 10 x.coefficient
  match x.exponent with
  | .ofNat e => ds ++ List.replicate e '0'
  | .negSucc e =>
      let places := e + 1
      if places < ds.length then
        ds.take (ds.length - places) ++ '.' :: ds.drop (ds.length - places)
      else
        '0' :: '.' :: (List.replicate (places - ds.length) '0' ++ ds)

end Decimal

end TurtleScript
