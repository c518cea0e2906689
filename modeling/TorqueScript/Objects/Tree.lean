import TorqueScript.Objects

/-!
Groups of objects. An object has at most one owner and keeps its children in order;
to own an object that owns it is refused silently. Deleting an object deletes what
it owns.
-/

namespace TorqueScript.Objects

def groupOf (o : Objects) (id : ObjectId) : Option ObjectId :=
  (o.instances.get? id).bind Instance.group

/-- `above` owns `id`, directly or through others. There are no more owners than objects. -/
def isAncestorFrom (o : Objects) (above : ObjectId) : Nat → ObjectId → Bool
  | 0, _ => false
  | fuel + 1, id =>
    match o.groupOf id with
    | none => false
    | some g => g == above || o.isAncestorFrom above fuel g

def isAncestor (o : Objects) (above id : ObjectId) : Bool :=
  o.isAncestorFrom above (o.size + 1) id

/-- Takes an object away from its owner. -/
def detach (o : Objects) (child : ObjectId) : Objects :=
  match o.groupOf child with
  | none => o
  | some g =>
    (o.update child fun i => { i with group := none }).update g fun i =>
      { i with children := i.children.filter (· ≠ child) }

/-- Makes `group` the owner of `child`, which becomes its last child. -/
def addChild (o : Objects) (group child : ObjectId) : Except Fault Objects := do
  discard (o.get group)
  discard (o.get child)
  if group = child || o.isAncestor child group then return o
  else
    return ((o.detach child).update group fun i =>
      { i with children := i.children ++ [child] }).update child fun i =>
        { i with group := some group }

/-- Takes `child` away from `group`, if that is its owner. -/
def removeChild (o : Objects) (group child : ObjectId) : Except Fault Objects := do
  let i ← o.get child
  return if i.group = some group then o.detach child else o

/-- Removes one object that owns nothing any more, and retires its name. -/
def removeOne (o : Objects) (id : ObjectId) : Objects :=
  let o := o.detach id
  match o.instances.get? id with
  | none => o
  | some i =>
    let o := { o with instances := o.instances.erase id }
    match i.name with
    | none => o
    | some n =>
      { o with
        names := o.names.erase (o.fold n)
        retired := o.fold n :: o.retired.filter (· ≠ o.fold n) }

/-- Removes an object and what it owns, children first. The nesting is no deeper than the number of
objects. -/
def removeTree : Nat → ObjectId → Objects → Objects
  | 0, _, o => o
  | fuel + 1, id, o =>
    match o.instances.get? id with
    | none => o
    | some i => (i.children.foldl (fun o child => removeTree fuel child o) o).removeOne id

def delete (o : Objects) (id : ObjectId) : Except Fault Objects := do
  discard (o.get id)
  return removeTree (o.size + 1) id o

end TorqueScript.Objects
