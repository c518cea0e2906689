import TorqueScript.Interpreter.State
import TorqueScript.Objects.Field
import TorqueScript.Objects.Reference
import TorqueScript.Objects.Tree

/-!
The functions that need the interpreter: writing, packages and objects.
-/

namespace TorqueScript

namespace ConsoleFunction

/-- A number from zero up to one, or a whole number between two bounds, which count as possible
results. Every such number comes from some bits. -/
def random (bits : UInt64) : Arguments → Value
  | [] => .number (Float.ofNat (bits.toNat / Nat.pow 2 11) / Float.ofNat (Nat.pow 2 53))
  | first :: rest =>
    let (a, b) :=
      match rest with
      | [] => (0, first.toInteger.toInt)
      | second :: _ => (first.toInteger.toInt, second.toInteger.toInt)
    let low := min a b
    let span := (max a b - low + 1).toNat
    .number (Float.ofInt (low + (bits.toNat * span / Nat.pow 2 64 : Nat)))

def run (f : ConsoleFunction) (args : Arguments) (i : Interpreter) : Value × Interpreter :=
  match f with
  | echo =>
    let line := args.foldl (fun line v => line ++ v.toText) ""
    (.undefined, { i with output := i.output ++ line ++ "\n" })
  | warn => (.undefined, i)
  | error => (.undefined, i)
  | getRealTime => (.ofNat (i.surroundings.time i.asked), i.ask)
  | getRandom => (random (i.surroundings.bits i.asked) args, i.ask)

end ConsoleFunction

/-- A name with its namespace, if it has one. -/
def qualifiedParts (name : List Char) : Option String × String :=
  match Text.splitQualified name with
  | some (qualifier, name) => (some (String.ofList qualifier), String.ofList name)
  | none => (none, String.ofList name)

namespace PackageFunction

def run (f : PackageFunction) (args : Arguments) (r : Functions Callable) :
    Except Fault Value × Functions Callable :=
  let name := (args.value 0).toText
  match f with
  | activatePackage =>
    match r.activate name with
    | .ok r => (.ok .undefined, r)
    | .error fault => (.error fault, r)
  | deactivatePackage => (.ok .undefined, r.deactivate name)
  | isPackage => (.ok (.ofBool (r.isPackage name)), r)
  | isActivePackage => (.ok (.ofBool (r.isActive name)), r)
  | isFunction =>
    let (qualifier, name) := qualifiedParts (args.text 0)
    (.ok (.ofBool (r.isFunction (r.key qualifier name))), r)

end PackageFunction

def ReferenceFunction.apply (f : ReferenceFunction) (args : Arguments) (o : Objects) : Value :=
  match f, o.resolve (args.value 0) with
  | isObject, found => .ofBool found.isOk
  | nameToId, .ok id => .ofNat id
  | nameToId, .error _ => .number (-1.0)

namespace ObjectQuery

/-- The answer for the object `i`. A position out of range has the answer minus one. -/
def about (f : ObjectQuery) (i : Instance) (args : Arguments) (o : Objects) :
    Except Fault Value :=
  match f with
  | getId => .ok (.ofNat i.id)
  | getName => .ok (.text (i.name.getD ""))
  | getClassName => .ok (.text i.className)
  | isMemberOfClass => (o.isMemberOfClass i.id (args.value 1).toText).map Value.ofBool
  | getGroup => .ok ((i.group.map Value.object).getD (.number 0.0))
  | getCount => .ok (.ofNat i.children.length)
  | getObject =>
    let n := (args.value 1).toInteger.toInt
    if n < 0 then .ok (.number (-1.0))
    else .ok ((i.children[n.toNat]?.map Value.object).getD (.number (-1.0)))
  | isMember =>
    match o.resolve (args.value 1) with
    | .ok child => .ok (.ofBool (child ∈ i.children))
    | .error _ => .ok (.ofBool false)

/-- The object is what the first argument refers to. -/
def apply (f : ObjectQuery) (args : Arguments) (o : Objects) : Except Fault Value := do
  let id ← o.resolve (args.value 0)
  let i ← o.get id
  f.about i args o

end ObjectQuery

namespace ObjectChange

/-- Changes the members of a group one after the other, up to the first fault. -/
def forMembers (change : Objects → ObjectId → ObjectId → Except Fault Objects)
    (group : ObjectId) : Arguments → Objects → Except Fault Value × Objects
  | [], o => (.ok .undefined, o)
  | v :: rest, o =>
    match (o.resolve v).bind (change o group) with
    | .error fault => (.error fault, o)
    | .ok o => forMembers change group rest o

def run (f : ObjectChange) (args : Arguments) (o : Objects) : Except Fault Value × Objects :=
  match o.resolve (args.value 0) with
  | .error fault => (.error fault, o)
  | .ok id =>
    match f with
    | delete =>
      match o.delete id with
      | .ok o => (.ok .undefined, o)
      | .error fault => (.error fault, o)
    | add => forMembers Objects.addChild id args.tail o
    | remove => forMembers Objects.removeChild id args.tail o

end ObjectChange

def Builtin.run (f : Builtin) (args : Arguments) (i : Interpreter) :
    Except Fault Value × Interpreter :=
  match f with
  | library f => (.ok (f.apply args), i)
  | console f =>
    let (v, i) := f.run args i
    (.ok v, i)
  | package f =>
    let (result, functions) := f.run args i.functions
    (result, { i with functions := functions })
  | reference f => (.ok (f.apply args i.objects), i)
  | query f => (f.apply args i.objects, i)
  | change f =>
    let (result, objects) := f.run args i.objects
    (result, { i with objects := objects })

namespace Callable

/-- The plain functions outside the library. -/
def plain : List (String × Callable) := [
  ("echo", builtin (.console .echo)),
  ("warn", builtin (.console .warn)),
  ("error", builtin (.console .error)),
  ("getRealTime", builtin (.console .getRealTime)),
  ("getRandom", builtin (.console .getRandom)),
  ("activatePackage", builtin (.package .activatePackage)),
  ("deactivatePackage", builtin (.package .deactivatePackage)),
  ("isPackage", builtin (.package .isPackage)),
  ("isActivePackage", builtin (.package .isActivePackage)),
  ("isFunction", builtin (.package .isFunction)),
  ("call", byName),
  ("isObject", builtin (.reference .isObject)),
  ("nameToID", builtin (.reference .nameToId))]

/-- The methods that all objects have. -/
def methods : List (String × Callable) := [
  ("getId", builtin (.query .getId)),
  ("getName", builtin (.query .getName)),
  ("getClassName", builtin (.query .getClassName)),
  ("isMemberOfClass", builtin (.query .isMemberOfClass)),
  ("delete", builtin (.change .delete)),
  ("getGroup", builtin (.query .getGroup)),
  ("getCount", builtin (.query .getCount)),
  ("getObject", builtin (.query .getObject)),
  ("add", builtin (.change .add)),
  ("remove", builtin (.change .remove)),
  ("isMember", builtin (.query .isMember))]

/-- All functions that an interpreter starts with, under their namespaces and names. -/
def initial : List (Option String × String × Callable) :=
  plain.map (none, ·) ++ methods.map (some Objects.rootClass, ·) ++
    LibraryFunction.named.map fun (name, f) => (none, name, builtin (.library f))

end Callable

namespace Interpreter

/-- An interpreter that knows the built-in functions and classes and nothing else. -/
def new (settings : Settings) (surroundings : Surroundings := .ofSeed 0) : Interpreter :=
  let functions : Functions Callable := { caseSensitive := settings.caseSensitive }
  { settings := settings
    functions := Callable.initial.foldl
      (fun r (qualifier, name, f) => r.define (r.key qualifier name) f) functions
    objects := .new settings.caseSensitive
    surroundings := surroundings }

end Interpreter

end TorqueScript
