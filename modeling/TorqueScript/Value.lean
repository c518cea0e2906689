import TorqueScript.Number.Numeral
import TorqueScript.Number.Format

/-!
The values of scripts and how one kind of value is seen as another. Every value has
a text, a number and a truth.
-/

namespace TorqueScript

/-- Objects are numbered from one in the order of their creation. A number is as good as one of 32
bits as long as fewer than `2 ^ 32 - 1` objects are made: no history is taken to exhaust the
counter. -/
abbrev ObjectId := Nat

inductive Value where
  | undefined
  | text (s : String)
  | number (x : Float)
  | object (id : ObjectId)

namespace Value

instance : Inhabited Value := ⟨undefined⟩

def ofBool (b : Bool) : Value :=
  number (if b then 1.0 else 0.0)

def ofNat (n : Nat) : Value :=
  number (Float.ofNat n)

def isUndefined : Value → Bool
  | undefined => true
  | _ => false

def toText : Value → String
  | undefined => ""
  | text s => s
  | number x => Number.toText x
  | object id => toString id

def toNumber : Value → Float
  | undefined => 0.0
  | text s => Number.ofText s.toList
  | number x => x
  | object id => Float.ofNat id

def toInteger (v : Value) : Int64 :=
  Number.toInteger v.toNumber

/-- A position in a list or text; negative ones count as zero. -/
def toIndex (v : Value) : Nat :=
  v.toInteger.toInt.toNat

def isTrue : Value → Bool
  | undefined => false
  | object _ => true
  | v => v.toNumber != 0.0

/-- Equality of two values as numbers, whatever their kinds. -/
def numberEq (v w : Value) : Bool :=
  v.toNumber == w.toNumber

/-- Equality of two values as texts, whatever their kinds. -/
def textEq (v w : Value) : Bool :=
  v.toText == w.toText

/-- Values of one kind with equal content. -/
def same : Value → Value → Bool
  | undefined, undefined => true
  | text s, text t => s == t
  | number x, number y => x == y
  | object i, object j => i == j
  | _, _ => false

/-- The name of an element: the base followed by the texts of the subscripts. -/
def elementName (base : String) (subscripts : List Value) : String :=
  base ++ "_".intercalate (subscripts.map toText)

end Value

end TorqueScript
