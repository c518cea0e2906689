import TorqueScript.Functions
import TorqueScript.Library
import TorqueScript.Objects
import TorqueScript.Program

/-!
The state of an interpreter: variables, calls in progress, functions, objects, the
faults so far and what was written. What lies outside the interpreter, such as the time,
is in the state as a tape of answers, of which nothing is known.
-/

namespace TorqueScript

/-- Functions that write, and those that answer differently from call to call. -/
inductive ConsoleFunction where
  | echo | warn | error | getRealTime | getRandom
deriving DecidableEq

/-- Functions about functions and packages. -/
inductive PackageFunction where
  | activatePackage | deactivatePackage | isPackage | isActivePackage | isFunction
deriving DecidableEq

/-- Functions that see what a value refers to. -/
inductive ReferenceFunction where
  | isObject | nameToId
deriving DecidableEq

/-- Methods of all objects that tell something about the object. -/
inductive ObjectQuery where
  | getId | getName | getClassName | isMemberOfClass | getGroup | getCount | getObject | isMember
deriving DecidableEq

/-- Methods of all objects that change which objects there are, or who owns them. -/
inductive ObjectChange where
  | delete | add | remove
deriving DecidableEq

inductive Builtin where
  | library (f : LibraryFunction)
  | console (f : ConsoleFunction)
  | package (f : PackageFunction)
  | reference (f : ReferenceFunction)
  | query (f : ObjectQuery)
  | change (f : ObjectChange)
deriving DecidableEq

/-- A function that the embedding program supplies; it answers a value or a message. -/
abbrev HostFunction := Arguments → Except String Value

/-- A function that the embedding program supplies and that has a state of its own. What it is
depends on how many questions were put to the surroundings before. -/
abbrev ChangingHost := Nat → HostFunction

/-- What the surroundings of an interpreter answer, by the number of questions before. -/
structure Surroundings where
  /-- Sixty-four random bits. -/
  bits : Nat → UInt64
  /-- Milliseconds since the start. -/
  time : Nat → Nat

/-- Surroundings that answer by a rule. Each question takes a millisecond, so waiting ends. -/
def Surroundings.ofSeed (seed : UInt64) : Surroundings where
  bits n := (seed + n.toUInt64) * 6364136223846793005 + 1442695040888963407
  time n := n

/-- What a function name can stand for. -/
inductive Callable where
  | script (f : FunctionDecl)
  | builtin (f : Builtin)
  /-- Calls the function that its first argument names. -/
  | byName
  | host (f : ChangingHost)

/-- Values by folded name. A variable that was never set is undefined. -/
abbrev Variables := Table String Value

def Variables.value (vars : Variables) (key : String) : Value :=
  (vars.get? key).getD .undefined

/-- A call in progress. -/
structure Frame where
  locals : Variables
  /-- Where the running function was found. -/
  slot : Slot
  /-- The namespaces that follow the one it was found in. -/
  fallback : List String
  receiver : Option ObjectId

structure Interpreter where
  settings : Settings
  globals : Variables := ∅
  /-- The local variables of code outside functions. -/
  topLocals : Variables := ∅
  /-- The calls in progress, the innermost first. -/
  frames : List Frame := []
  functions : Functions Callable
  objects : Objects
  faults : List Fault := []
  output : String := ""
  surroundings : Surroundings := .ofSeed 0
  /-- How many questions were put to the surroundings. -/
  asked : Nat := 0

namespace Interpreter

def fold (i : Interpreter) (name : String) : String :=
  i.settings.fold name

def locals (i : Interpreter) : Variables :=
  match i.frames with
  | f :: _ => f.locals
  | [] => i.topLocals

def setLocal (i : Interpreter) (key : String) (v : Value) : Interpreter :=
  match i.frames with
  | f :: rest => { i with frames := { f with locals := f.locals.insert key v } :: rest }
  | [] => { i with topLocals := i.topLocals.insert key v }

def setGlobalKey (i : Interpreter) (key : String) (v : Value) : Interpreter :=
  { i with globals := i.globals.insert key v }

/-- The same interpreter after one more question to its surroundings. -/
def ask (i : Interpreter) : Interpreter :=
  { i with asked := i.asked + 1 }

def pushFrame (i : Interpreter) (f : Frame) : Interpreter :=
  { i with frames := f :: i.frames }

def popFrame (i : Interpreter) : Interpreter :=
  { i with frames := i.frames.tail }

end Interpreter

end TorqueScript
