import TorqueScript.Interpreter.State
import TorqueScript.Objects.Reference

/-!
Which definition a call runs. A plain call looks under its name; a call with a
namespace, or on an object, goes through a chain of namespaces; a parent call goes
on from the place of the running definition, first down its stack and then along
the rest of the chain.
-/

namespace TorqueScript

/-- A definition to run, with what a parent call in it will go on with. -/
structure Dispatch where
  definition : Definition Callable
  /-- The namespaces that follow the one it was found in. -/
  fallback : List String
  receiver : Option ObjectId

namespace Functions

variable {β : Type}

/-- The first definition of `name` along a chain of namespaces, and the rest of the chain. -/
def resolveAlong (r : Functions β) (name : String) :
    List String → Option (Definition β × List String)
  | [] => none
  | q :: rest =>
    match r.resolve (r.key (some q) name) with
    | some d => some (d, rest)
    | none => r.resolveAlong name rest

end Functions

namespace Interpreter

/-- Looks a name up along a chain. -/
def dispatchAlong (i : Interpreter) (chain : List String) (name : String)
    (receiver : Option ObjectId) : Option Dispatch :=
  (i.functions.resolveAlong name chain).map fun (d, rest) => ⟨d, rest, receiver⟩

/-- The namespaces that a qualified call goes through. -/
def qualifierChain (i : Interpreter) (qualifier : String) : List String :=
  if i.objects.isClass qualifier then i.objects.classChain qualifier false else [qualifier]

/-- A call by name, with or without a namespace. -/
def dispatchStatic (i : Interpreter) (qualifier : Option String) (name : String)
    (args : Arguments) : Except Fault Dispatch :=
  match qualifier with
  | none =>
    match i.functions.resolve (i.functions.key none name) with
    | some d => .ok ⟨d, [], none⟩
    | none => .error (.unknownFunction name)
  | some q =>
    let chain := i.qualifierChain q
    let receiver := args.head?.bind fun v => (i.objects.resolve v).toOption
    match i.dispatchAlong chain name receiver with
    | some d => .ok d
    | none => .error (.unknownFunction (chain.headD q ++ "::" ++ name))

/-- A call on an object. -/
def dispatchMethod (i : Interpreter) (id : ObjectId) (name : String) :
    Except Fault Dispatch := do
  let chain ← i.objects.namespaceChain id
  match i.dispatchAlong chain name (some id) with
  | some d => return d
  | none =>
    let object ← i.objects.get id
    throw (.unknownFunction (object.className ++ "::" ++ name))

/-- A call to the definition behind the running one. -/
def dispatchParent (i : Interpreter) (name : String) : Except Fault Dispatch :=
  match i.frames with
  | [] => .error (.noParent name)
  | frame :: _ =>
    let slot : Slot := ⟨⟨frame.slot.key.qualifier, i.fold name⟩, frame.slot.package⟩
    match i.functions.resolveParent slot with
    | some d => .ok ⟨d, frame.fallback, frame.receiver⟩
    | none =>
      match i.dispatchAlong frame.fallback name frame.receiver with
      | some d => .ok d
      | none => .error (.noParent slot.key.toText)

/-- The namespace word that marks a parent call, in any case of its letters. -/
def isParentQualifier (qualifier : String) : Bool :=
  Text.lowerAscii qualifier == "parent"

/-- The definition that a call expression runs. -/
def dispatchCall (i : Interpreter) (qualifier : Option String) (name : String)
    (args : Arguments) : Except Fault Dispatch :=
  if qualifier.any isParentQualifier then i.dispatchParent name
  else i.dispatchStatic qualifier name args

end Interpreter

end TorqueScript
