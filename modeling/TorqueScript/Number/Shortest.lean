import TorqueScript.Number.Binary

/-!
The shortest decimal that reads back as a given double. The reals that round to a
double form an interval; for one digit, two digits and so on, the two decimals
next to the double are tried, and the first that lies in the interval is taken.
-/

namespace TorqueScript.Number

/-- The reals that round to `mantissa * 2 ^ exponent`, as fractions over one denominator. -/
structure Interval where
  low : Nat
  value : Nat
  high : Nat
  denominator : Nat
  /-- The ends belong to the interval. -/
  closed : Bool

/-- The neighbour below is half as far away at the start of a power of two. -/
def Interval.ofProduct (mantissa : Nat) (exponent : Int) : Interval :=
  let scale := Nat.pow 2 (exponent - 2).toNat
  let below :=
    if mantissa = Binary.leastNormal && decide (Binary.leastExponent < exponent) then 1 else 2
  { low := (4 * mantissa - below) * scale
    value := 4 * mantissa * scale
    high := (4 * mantissa + 2) * scale
    denominator := Nat.pow 2 (2 - exponent).toNat
    closed := mantissa % 2 == 0 }

namespace Interval

/-- The position of the first digit: `10 ^ (n - 1) ≤ value < 10 ^ n`. -/
def magnitude (i : Interval) : Int :=
  if i.denominator ≤ i.value then (Nat.toDigits 10 (i.value / i.denominator)).length
  else 1 - (Nat.toDigits 10 ((i.denominator - 1) / i.value)).length

/-- The multiple of `10 ^ exponent` that is nearest to the value among those in the interval that
stand next to it; of two equally near ones, the larger. -/
def onGrid? (i : Interval) (exponent : Int) : Option Nat :=
  let up := Nat.pow 10 (-exponent).toNat
  let unit := i.denominator * Nat.pow 10 exponent.toNat
  let value := i.value * up
  let below := value / unit
  let reaches (a b : Nat) : Bool := a < b || i.closed && a == b
  let down := reaches (i.low * up) (below * unit)
  let above := reaches ((below + 1) * unit) (i.high * up)
  if above && (!down || unit ≤ 2 * (value % unit)) then some (below + 1)
  else if down then some below
  else none

/-- The first hit on the grids of `10 ^ exponent`, `10 ^ (exponent - 1)` and so on. -/
def shortestFrom (i : Interval) : Nat → Int → Nat × Int
  | 0, exponent => (i.value / i.denominator, exponent)
  | tries + 1, exponent =>
    match i.onGrid? exponent with
    | some digits => if digits % 10 = 0 then (digits / 10, exponent + 1) else (digits, exponent)
    | none => i.shortestFrom tries (exponent - 1)

end Interval

/-- Digits and exponent of the shortest decimal for `mantissa * 2 ^ exponent`, which is positive.
Seventeen digits always suffice. -/
def shortest (mantissa : Nat) (exponent : Int) : Nat × Int :=
  let i := Interval.ofProduct mantissa exponent
  i.shortestFrom 17 (i.magnitude - 1)

end TorqueScript.Number
