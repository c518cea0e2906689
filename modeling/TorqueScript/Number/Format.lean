import TorqueScript.Number.Shortest

/-!
Writing numbers. No form has an exponent. The text of a value keeps six places of
a fraction and drops trailing zeros; a numeral in printed source has the fewest
digits that read back.
-/

namespace TorqueScript.Number

/-- The decimal `digits * 10 ^ exponent` written out. -/
def positional (digits : Nat) (exponent : Int) : List Char :=
  let ds := Nat.toDigits 10 digits
  if 0 ≤ exponent then ds ++ List.replicate exponent.toNat '0'
  else
    let places := exponent.natAbs
    let padded := List.replicate (places + 1 - ds.length) '0' ++ ds
    padded.take (padded.length - places) ++ '.' :: padded.drop (padded.length - places)

/-- `numerator / denominator` rounded to the nearest whole number; a half goes to the even one. -/
def roundRatio (numerator denominator : Nat) : Nat :=
  let n := numerator / denominator
  match compare (2 * (numerator % denominator)) denominator with
  | .lt => n
  | .eq => if n % 2 = 0 then n else n + 1
  | .gt => n + 1

/-- Fractions are written with this many places. -/
def places : Nat := 6

def withSign (negative : Bool) (cs : List Char) : String :=
  String.ofList (if negative then '-' :: cs else cs)

private def dropTrailing (c : Char) (cs : List Char) : List Char :=
  (cs.reverse.dropWhile (· == c)).reverse

/-- A finite number in the fewest digits that read back. -/
def shortestText (mantissa : Nat) (exponent : Int) : List Char :=
  if mantissa = 0 then ['0']
  else
    let (digits, exponent) := shortest mantissa exponent
    positional digits exponent

/-- A number with a fraction, to six places and without trailing zeros. -/
private def roundedText (mantissa : Nat) (exponent : Int) : List Char :=
  let scaled := roundRatio (mantissa * Nat.pow 10 places) (Nat.pow 2 (-exponent).toNat)
  dropTrailing '.' (dropTrailing '0' (positional scaled (-places)))

/-- The text of a number. Zero has no sign, also when it only rounds to zero. -/
def toText (x : Float) : String :=
  match Binary.ofFloat x with
  | .nan => "nan"
  | .infinite negative => if negative then "-inf" else "inf"
  | .finite negative m e =>
    let digits := if isWholeProduct m e then shortestText m e else roundedText m e
    if digits = ['0'] then "0" else withSign negative digits

/-- The numeral that stands for a number in printed source. -/
def toNumeral (x : Float) : String :=
  match Binary.ofFloat x with
  | .nan => "NaN"
  | .infinite negative => if negative then "-inf" else "inf"
  | .finite negative m e => withSign negative (shortestText m e)

end TorqueScript.Number
