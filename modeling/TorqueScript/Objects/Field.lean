import TorqueScript.Objects

/-!
Fields of objects. A field that a datablock lacks is taken from the datablock it
inherits from; writing never reaches a parent.
-/

namespace TorqueScript.Objects

/-- The value under a folded key in an object or in the nearest parent that has it. The walk stops
before an object that it has visited; it has no more steps than there are objects. -/
def fieldFrom (o : Objects) (key : String) : Nat → List ObjectId → Instance → Value
  | 0, _, _ => .undefined
  | fuel + 1, visited, i =>
    match i.fields.get? key with
    | some v => v
    | none =>
      match i.parent with
      | none => .undefined
      | some p =>
        if p ∈ i.id :: visited then .undefined
        else
          match o.instances.get? p with
          | some next => o.fieldFrom key fuel (i.id :: visited) next
          | none => .undefined

def field (o : Objects) (id : ObjectId) (name : String) : Except Fault Value := do
  let i ← o.get id
  return o.fieldFrom (o.fold name) o.size [] i

def setField (o : Objects) (id : ObjectId) (name : String) (v : Value) :
    Except Fault Objects := do
  discard (o.get id)
  return o.update id fun i => { i with fields := i.fields.insert (o.fold name) v }

end TorqueScript.Objects
