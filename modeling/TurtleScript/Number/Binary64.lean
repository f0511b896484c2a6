/-!
Binary floating-point numbers of 64 bits in exact arithmetic. The magnitude of a number is its bit
pattern without the sign; magnitudes are ordered as the numbers are, and the one after the
greatest finite magnitude is infinity. `nearest` rounds a ratio to a magnitude, a half to the even
neighbour, and `parts` takes a finite magnitude apart into its mantissa and its power of two.
-/

namespace TurtleScript

namespace Binary64

/-- The magnitude of infinity; the greater ones are not numbers. -/
def infinity : Nat := 2047 * Nat.pow 2 52

/-- The weight of the last mantissa bit is at least two to this power. -/
def leastUnit : Int := -1074

/-- The whole number nearest to `n / d`; of two, the even one. -/
def roundHalfEven (n d : Nat) : Nat :=
  let down := n / d
  let twice := 2 * (n % d)
  if twice < d || (twice == d && down % 2 == 0) then down else down + 1

/-- The ratio `n / d` divided by two to the given power. -/
def divideByPower (n d : Nat) : Int → Nat × Nat
  | .ofNat e => (n, d * Nat.pow 2 e)
  | .negSucc e => (n * Nat.pow 2 (e + 1), d)

/-- The power of two that the last mantissa bit of `n / d` stands for. The lengths of `n` and `d`
leave two candidates, of which the lower one must leave no more than 53 bits. -/
def unit (n d : Nat) : Int :=
  let low := max ((n.log2 : Int) - (d.log2 : Int) - 53) leastUnit
  let (n', d') := divideByPower n d low
  if n' < Nat.pow 2 53 * d' then low else low + 1

/-- The magnitude nearest to `n / d`; of two, the one with the even mantissa. A mantissa rounded up
to 54 bits carries into the exponent, as the bit pattern has it. -/
def nearest (n d : Nat) : Nat :=
  if n = 0 then 0
  else
    let u := unit n d
    let (n', d') := divideByPower n d u
    min ((u - leastUnit).toNat * Nat.pow 2 52 + roundHalfEven n' d') infinity

/-- The mantissa of a finite magnitude, and the power of two that its last bit stands for. -/
def parts (magnitude : Nat) : Nat × Int :=
  let exponent := magnitude / Nat.pow 2 52
  let fraction := magnitude % Nat.pow 2 52
  if exponent = 0 then (fraction, leastUnit)
  else (fraction + Nat.pow 2 52, leastUnit + (exponent - 1 : Nat))

/-- The bit pattern of a number without its sign. -/
def magnitude (x : Float) : Nat :=
  x.toBits.toNat % Nat.pow 2 63

def isNegative (x : Float) : Bool :=
  Nat.pow 2 63 ≤ x.toBits.toNat

def ofMagnitude (negative : Bool) (magnitude : Nat) : Float :=
  Float.ofBits (UInt64.ofNat (if negative then Nat.pow 2 63 + magnitude else magnitude))

end Binary64

end TurtleScript
