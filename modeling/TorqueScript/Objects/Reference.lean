import TorqueScript.Objects

/-!
Values as references to objects. Numbers and texts of digits refer by number, all
other texts by name.
-/

namespace TorqueScript.Objects

/-- Larger numbers refer to no object. -/
def maxId : Nat := Nat.pow 2 32 - 1

/-- The object with a number, which is named in faults as `reference`. -/
def resolveNumber (o : Objects) (x : Float) (reference : String) : Except Fault ObjectId :=
  if !Number.isWhole x || x < 1.0 || Float.ofNat maxId < x then
    .error (.unknownObject reference)
  else (o.get (Number.toInteger x).toInt.toNat).map Instance.id

/-- The live object that a value refers to. -/
def resolve (o : Objects) : Value → Except Fault ObjectId
  | .object id => (o.get id).map Instance.id
  | .number x => o.resolveNumber x (Number.toText x)
  | .text s =>
    let name := Text.trim s.toList
    let reference := String.ofList name
    if !name.isEmpty && name.all Char.isDigit then
      o.resolveNumber (Number.ofText s.toList) reference
    else
      match o.findByName reference with
      | some id => .ok id
      | none => .error (missing reference (o.fold reference ∈ o.retired))
  | .undefined => .error (.unknownObject "")

end TorqueScript.Objects
