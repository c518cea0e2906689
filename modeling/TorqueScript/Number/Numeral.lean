import TorqueScript.Text.Blank
import TorqueScript.Text.Letter
import TorqueScript.Number.Binary

/-!
Reading numerals. A text is a number by its longest leading numeral: blanks, a
sign, then hexadecimal digits after `0x`, or a decimal with an optional fraction
and exponent. A text with no leading numeral counts as zero. The numerals of
source code are read by the same rules.
-/

namespace TorqueScript.Number

open Text

/-- A decimal: `digits * 10 ^ exponent`. -/
structure Decimal where
  digits : Nat
  exponent : Int

/-- The double nearest to a decimal. Decimals that are out of range by their size alone are not
multiplied out. -/
def Decimal.toFloat (d : Decimal) : Float :=
  let size := d.exponent + (Nat.toDigits 10 d.digits).length
  if d.digits = 0 then 0.0
  else if 310 ≤ size then 1.0 / 0.0
  else if size ≤ -324 then 0.0
  else Float.ofScientific d.digits (d.exponent < 0) d.exponent.natAbs

/-- A sign and what follows it. -/
def splitSign : List Char → Bool × List Char
  | '-' :: cs => (true, cs)
  | '+' :: cs => (false, cs)
  | cs => (false, cs)

/-- The exponent that a text begins with, or zero. -/
def leadingExponent : List Char → Int
  | c :: cs =>
    if c == 'e' || c == 'E' then
      let (negative, rest) := splitSign cs
      let n : Int := decimalValue (rest.takeWhile Char.isDigit)
      if negative then -n else n
    else 0
  | [] => 0

/-- The fraction digits after a decimal point, and what follows them. -/
def splitFraction : List Char → List Char × List Char
  | '.' :: cs => (cs.takeWhile Char.isDigit, cs.dropWhile Char.isDigit)
  | cs => ([], cs)

/-- The longest decimal without sign that a text begins with. -/
def leadingDecimal (cs : List Char) : Option Decimal :=
  let whole := cs.takeWhile Char.isDigit
  let (fraction, rest) := splitFraction (cs.dropWhile Char.isDigit)
  if whole.isEmpty && fraction.isEmpty then none
  else
    some {
      digits := decimalValue (whole ++ fraction)
      exponent := leadingExponent rest - fraction.length }

/-- The hexadecimal digits after `0x`. -/
def hexDigits? : List Char → Option (List Char)
  | '0' :: c :: cs => if c == 'x' || c == 'X' then some (cs.takeWhile isHexDigit) else none
  | _ => none

/-- Hexadecimal numerals must stay below this bound. -/
def hexLimit : Nat := Nat.pow 2 63

/-- The hexadecimal numeral without sign that a text begins with. -/
def leadingHex (cs : List Char) : Option Nat :=
  match hexDigits? cs with
  | some digits =>
    let n := hexadecimalValue digits
    if digits.isEmpty || hexLimit ≤ n then none else some n
  | none => none

/-- The number that a text stands for. -/
def ofText (cs : List Char) : Float :=
  let (negative, body) := splitSign (trimLeft cs)
  match leadingHex body with
  | some n => signed negative (Float.ofNat n)
  | none =>
    match leadingDecimal body with
    | some d => signed negative d.toFloat
    | none => 0.0

/-- The number that a numeral of source code stands for. Only a hexadecimal numeral can be out of
range. It is asked for the texts of numeral tokens only, and such a text is one numeral from its
first character to its last; of another text the longest leading numeral would count. -/
def ofLiteral? (cs : List Char) : Option Float :=
  match hexDigits? cs with
  | some _ => (leadingHex cs).map Float.ofNat
  | none => (leadingDecimal cs).map Decimal.toFloat

end TorqueScript.Number
