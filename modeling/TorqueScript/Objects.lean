import TorqueScript.Table
import TorqueScript.Settings
import TorqueScript.Fault
import TorqueScript.Value

/-!
Objects: numbered in the order of their creation, some of them named, each of a
class. Numbers are not used again, so a number below the next one whose object is
gone was deleted. Names can be used again after their object is gone.
-/

namespace TorqueScript

structure Instance where
  id : ObjectId
  /-- The name as it was declared. -/
  name : Option String
  className : String
  isDatablock : Bool
  /-- The datablock that gives the fields this one lacks. -/
  parent : Option ObjectId
  /-- The object that owns this one. -/
  group : Option ObjectId := none
  children : List ObjectId := []
  fields : Table String Value := ∅

/-- A class as it was registered. -/
structure ClassInfo where
  name : String
  parent : Option String

structure Objects where
  caseSensitive : Bool
  nextId : ObjectId := 1
  instances : Table ObjectId Instance := ∅
  names : Table String ObjectId := ∅
  /-- Names of deleted objects that no other object has taken. -/
  retired : List String := []
  classes : Table String ClassInfo := ∅

namespace Objects

def fold (o : Objects) (name : String) : String :=
  foldName o.caseSensitive name

def rootClass : String := "SimObject"

def datablockClass : String := "SimDataBlock"

/-- The classes that are always there, with the classes they extend. -/
def standardClasses : List (String × Option String) := [
  ("SimObject", none),
  ("ScriptObject", some "SimObject"),
  ("SimSet", some "SimObject"),
  ("SimGroup", some "SimSet"),
  ("SimDataBlock", some "SimObject")]

def registerClass (o : Objects) (name : String) (parent : Option String) : Objects :=
  { o with classes := o.classes.insert (o.fold name) ⟨name, parent⟩ }

def new (caseSensitive : Bool) : Objects :=
  standardClasses.foldl (fun o c => o.registerClass c.1 c.2) { caseSensitive := caseSensitive }

def isClass (o : Objects) (name : String) : Bool :=
  o.classes.contains (o.fold name)

/-- A class by its registered spelling, and the class to search after it. A class that is not
registered comes directly under the root class, or under the one of all datablocks. -/
def classStep (o : Objects) (isDatablock : Bool) (name : String) : String × Option String :=
  match o.classes.get? (o.fold name) with
  | some info => (info.name, info.parent)
  | none => (name, some (if isDatablock then datablockClass else rootClass))

/-- Follows the classes from `name` on until one was visited before. -/
def classChainFrom (o : Objects) (isDatablock : Bool) :
    Nat → List String → String → List String
  | 0, _, _ => []
  | fuel + 1, visited, name =>
    if o.fold name ∈ visited then []
    else
      let (spelling, next) := o.classStep isDatablock name
      spelling ::
        match next with
        | none => []
        | some next => o.classChainFrom isDatablock fuel (o.fold name :: visited) next

/-- The namespaces that methods of a class are searched in, the class itself first. Besides the
registered classes a chain has at most two others. -/
def classChain (o : Objects) (name : String) (isDatablock : Bool) : List String :=
  o.classChainFrom isDatablock (o.classes.size + 3) [] name

def contains (o : Objects) (id : ObjectId) : Bool :=
  o.instances.contains id

def size (o : Objects) : Nat :=
  o.instances.size

/-- The fault of a reference to an object that is not there. -/
def missing (reference : String) (deleted : Bool) : Fault :=
  if deleted then .deletedObject reference else .unknownObject reference

def get (o : Objects) (id : ObjectId) : Except Fault Instance :=
  match o.instances.get? id with
  | some i => .ok i
  | none => .error (missing (toString id) (decide (id ≠ 0) && decide (id < o.nextId)))

def update (o : Objects) (id : ObjectId) (f : Instance → Instance) : Objects :=
  match o.instances.get? id with
  | some i => { o with instances := o.instances.insert id (f i) }
  | none => o

def findByName (o : Objects) (name : String) : Option ObjectId :=
  o.names.get? (o.fold name)

/-- Creates an object. A name that is empty counts as none. -/
def instantiate (o : Objects) (className : String) (name : Option String)
    (parent : Option ObjectId) (isDatablock : Bool) : Except Fault (ObjectId × Objects) := do
  let name := name.filter fun n => !n.isEmpty
  match name with
  | some n => if o.names.contains (o.fold n) then throw (.nameTaken n)
  | none => pure ()
  match parent with
  | some p => discard (o.get p)
  | none => pure ()
  let id := o.nextId
  let o :=
    match name with
    | some n =>
      { o with
        names := o.names.insert (o.fold n) id
        retired := o.retired.filter (· ≠ o.fold n) }
    | none => o
  return (id, { o with
    nextId := id + 1
    instances := o.instances.insert id
      { id := id
        name := name
        className := className
        isDatablock := isDatablock
        parent := parent } })

/-- The namespaces that methods of an object are searched in: its name, then its classes. -/
def namespaceChain (o : Objects) (id : ObjectId) : Except Fault (List String) := do
  let i ← o.get id
  return i.name.toList ++ o.classChain i.className i.isDatablock

def isMemberOfClass (o : Objects) (id : ObjectId) (name : String) : Except Fault Bool := do
  let i ← o.get id
  return (o.classChain i.className i.isDatablock).any fun c => o.fold c == o.fold name

end Objects

end TorqueScript
