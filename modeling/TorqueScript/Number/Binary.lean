/-!
Numbers taken apart. A double is not a number, an infinity, or a signed whole
number times a power of two; on that exact value rest the roundings to whole
numbers and the conversion to 64-bit integers.
-/

namespace TorqueScript

/-- The exact value of a double. A finite one is `mantissa * 2 ^ exponent` with a sign. -/
inductive Binary where
  | nan
  | infinite (negative : Bool)
  | finite (negative : Bool) (mantissa : Nat) (exponent : Int)

namespace Binary

/-- The mantissa of the doubles that begin a new power of two. -/
def leastNormal : Nat := Nat.pow 2 52

/-- The exponent of the doubles next to zero. -/
def leastExponent : Int := -1074

def ofFloat (x : Float) : Binary :=
  let bits := x.toBits.toNat
  let negative := decide (Nat.pow 2 63 ≤ bits)
  let exponent : Nat := bits / Nat.pow 2 52 % Nat.pow 2 11
  let fraction := bits % Nat.pow 2 52
  if exponent = 2047 then if fraction = 0 then .infinite negative else .nan
  else if exponent = 0 then .finite negative fraction leastExponent
  else .finite negative (leastNormal + fraction) (leastExponent + (exponent - 1 : Nat))

end Binary

namespace Number

/-- `mantissa * 2 ^ exponent` without its fraction. -/
def wholePart (mantissa : Nat) (exponent : Int) : Nat :=
  mantissa * Nat.pow 2 exponent.toNat / Nat.pow 2 (-exponent).toNat

def isWholeProduct (mantissa : Nat) (exponent : Int) : Bool :=
  mantissa % Nat.pow 2 (-exponent).toNat == 0

/-- The number has no fraction. Numbers that are not finite are not whole. -/
def isWhole (x : Float) : Bool :=
  match Binary.ofFloat x with
  | .finite _ m e => isWholeProduct m e
  | _ => false

def isFinite (x : Float) : Bool :=
  match Binary.ofFloat x with
  | .finite _ _ _ => true
  | _ => false

def signed (negative : Bool) (x : Float) : Float :=
  if negative then -x else x

/-- The integer that bitwise operators and positions see: the fraction is dropped, a number out of
range goes to the nearest end of the range, and one that is not finite counts as zero. -/
def toInteger (x : Float) : Int64 :=
  match Binary.ofFloat x with
  | .finite negative m e =>
    if negative then Int64.ofInt (-(min (wholePart m e) (Nat.pow 2 63) : Nat))
    else Int64.ofInt (min (wholePart m e) (Nat.pow 2 63 - 1) : Nat)
  | _ => 0

def ofInteger (n : Int64) : Float :=
  Float.ofInt n.toInt

/-- Rounds a number with a fraction: `choose` picks the size of the result from the sign, the size
without the fraction, and the doubled fraction compared with one. -/
private def roundBy (choose : Bool → Nat → Ordering → Nat) (x : Float) : Float :=
  match Binary.ofFloat x with
  | .finite negative m e =>
    if isWholeProduct m e then x
    else
      let unit := Nat.pow 2 (-e).toNat
      signed negative (Float.ofNat (choose negative (m / unit) (compare (2 * (m % unit)) unit)))
  | _ => x

/-- The nearest whole number below. -/
def floor (x : Float) : Float :=
  roundBy (fun negative n _ => if negative then n + 1 else n) x

/-- The nearest whole number above. -/
def ceil (x : Float) : Float :=
  roundBy (fun negative n _ => if negative then n else n + 1) x

/-- The nearest whole number; a half goes away from zero. -/
def round (x : Float) : Float :=
  roundBy (fun _ n half => if half = .lt then n else n + 1) x

/-- The smaller number. One that is not a number gives way to the other. -/
def least (x y : Float) : Float :=
  if x.isNaN then y else if y < x then y else x

/-- The larger number. One that is not a number gives way to the other. -/
def greatest (x y : Float) : Float :=
  if x.isNaN then y else if x < y then y else x

end Number

end TorqueScript
