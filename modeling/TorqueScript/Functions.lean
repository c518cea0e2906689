import TorqueScript.Table
import TorqueScript.Settings
import TorqueScript.Fault

/-!
Functions and packages. Under each key lies a stack of definitions: the base at the
bottom, above it those of the active packages. The topmost one is called, and each
can go on to the one below it.
-/

namespace TorqueScript

/-- A function's name and the namespace it belongs to, both in their folded form. -/
structure FunctionKey where
  qualifier : Option String
  name : String
deriving DecidableEq

def FunctionKey.toText (k : FunctionKey) : String :=
  match k.qualifier with
  | some q => q ++ "::" ++ k.name
  | none => k.name

/-- A definition on a stack; the base belongs to no package. -/
structure Entry (β : Type) where
  package : Option String
  body : β

/-- The place of a definition: its key and the package that made it. -/
structure Slot where
  key : FunctionKey
  package : Option String
deriving DecidableEq

/-- A definition that was found, with its place. -/
structure Definition (β : Type) where
  body : β
  slot : Slot

namespace Entry

variable {β : Type}

/-- A stack, bottom first, with a new base. -/
def setBase (body : β) : List (Entry β) → List (Entry β)
  | [] => [⟨none, body⟩]
  | e :: rest =>
    if e.package.isNone then ⟨none, body⟩ :: rest else ⟨none, body⟩ :: e :: rest

/-- A stack with a package's definition: in its old place if there is one, else on top. -/
def setPackage (package : String) (body : β) : List (Entry β) → List (Entry β)
  | [] => [⟨some package, body⟩]
  | e :: rest =>
    if e.package = some package then ⟨some package, body⟩ :: rest
    else e :: setPackage package body rest

def dropPackage (package : String) (stack : List (Entry β)) : List (Entry β) :=
  stack.filter fun e => !decide (e.package = some package)

/-- The definition directly below the one of `package`. -/
def below? (package : Option String) : List (Entry β) → Option (Entry β)
  | lower :: e :: rest =>
    if lower.package = package then none
    else if e.package = package then some lower
    else below? package (e :: rest)
  | _ => none

end Entry

/-- All functions and packages that are known. -/
structure Functions (β : Type) where
  caseSensitive : Bool
  definitions : Table FunctionKey (List (Entry β)) := ∅
  packages : Table String (Table FunctionKey β) := ∅
  /-- The active packages in the order of their activation. -/
  active : List String := []

namespace Functions

variable {β : Type}

def fold (r : Functions β) (name : String) : String :=
  foldName r.caseSensitive name

def key (r : Functions β) (qualifier : Option String) (name : String) : FunctionKey :=
  ⟨qualifier.map r.fold, r.fold name⟩

def stack (r : Functions β) (k : FunctionKey) : List (Entry β) :=
  (r.definitions.get? k).getD []

def isFunction (r : Functions β) (k : FunctionKey) : Bool :=
  r.definitions.contains k

def isPackage (r : Functions β) (name : String) : Bool :=
  r.packages.contains (r.fold name)

def isActive (r : Functions β) (name : String) : Bool :=
  r.fold name ∈ r.active

/-- Gives a key its base definition. -/
def define (r : Functions β) (k : FunctionKey) (body : β) : Functions β :=
  { r with definitions := r.definitions.insert k (Entry.setBase body (r.stack k)) }

/-- Stacks a package's definition under its key. -/
def push (r : Functions β) (package : String) (k : FunctionKey) (body : β) : Functions β :=
  { r with definitions := r.definitions.insert k (Entry.setPackage package body (r.stack k)) }

/-- Notes a definition in a package. If the package is active, it takes effect at once. -/
def declareOne (package : String) (r : Functions β) (declared : FunctionKey × β) : Functions β :=
  let r := if package ∈ r.active then r.push package declared.1 declared.2 else r
  let known := (r.packages.get? package).getD ∅
  { r with packages := r.packages.insert package (known.insert declared.1 declared.2) }

/-- Adds definitions to a package, which need not be known before. -/
def declare (r : Functions β) (name : String) (declared : List (FunctionKey × β)) :
    Functions β :=
  let package := r.fold name
  let r := declared.foldl (declareOne package) r
  if r.packages.contains package then r
  else { r with packages := r.packages.insert package ∅ }

/-- Puts a package's definitions on top of their stacks. -/
def activate (r : Functions β) (name : String) : Except Fault (Functions β) :=
  let package := r.fold name
  if package ∈ r.active then .ok r
  else
    match r.packages.get? package with
    | none => .error (.unknownPackage name)
    | some known =>
      let r := known.entries.foldl (fun r d => r.push package d.1 d.2) r
      .ok { r with active := r.active ++ [package] }

/-- Takes a package's definition off one stack; a stack that is left empty goes too. -/
def pull (package : String) (r : Functions β) (k : FunctionKey) : Functions β :=
  match r.definitions.get? k with
  | none => r
  | some stack =>
    match Entry.dropPackage package stack with
    | [] => { r with definitions := r.definitions.erase k }
    | left => { r with definitions := r.definitions.insert k left }

/-- Takes a package's definitions off their stacks. A package that is not active stays so. -/
def deactivate (r : Functions β) (name : String) : Functions β :=
  let package := r.fold name
  if package ∈ r.active then
    let known := (r.packages.get? package).getD ∅
    let r := known.entries.foldl (fun r d => r.pull package d.1) r
    { r with active := r.active.erase package }
  else r

/-- The definition to call under a key. -/
def resolve (r : Functions β) (k : FunctionKey) : Option (Definition β) :=
  (r.stack k).getLast?.map fun e => ⟨e.body, ⟨k, e.package⟩⟩

/-- The definition below the one in `slot`. -/
def resolveParent (r : Functions β) (slot : Slot) : Option (Definition β) :=
  (Entry.below? slot.package (r.stack slot.key)).map fun e => ⟨e.body, ⟨slot.key, e.package⟩⟩

end Functions

end TorqueScript
