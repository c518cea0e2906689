import TorqueScript.Interpreter.Eval
import TorqueScript.Program.Parse.Statement

/-!
The interpreter as the program around it uses it: running sources, calling functions,
reading and setting variables, and adding functions of its own. Runs take a budget and
have no outcome when it is exhausted.
-/

namespace TorqueScript.Interpreter

/-- What a statement outside functions is worth. Only expressions have a value. -/
def topLevel (budget : Nat) : Statement → Effect Value
  | .expr e => Eval.expr budget e
  | s => do
    discard (Eval.statement budget s)
    return .undefined

/-- Runs one statement of a program. A fault is noted, and the statement has no value then. -/
def runStatement (budget : Nat) (s : Statement) (i : Interpreter) :
    Option (Value × Interpreter) :=
  match topLevel budget s i with
  | none => none
  | some (.ok v, i) => some (v, { i with frames := [] })
  | some (.error fault, i) =>
    some (.undefined, { i with frames := [], faults := i.faults ++ [fault] })

/-- Runs statements in order, also after faults; the value is the last one's. -/
def runStatements (budget : Nat) :
    List Statement → Value → Interpreter → Option (Value × Interpreter)
  | [], last, i => some (last, i)
  | s :: rest, _, i =>
    match i.runStatement budget s with
    | none => none
    | some (v, i) => runStatements budget rest v i

/-- Runs a program, which starts without local variables. -/
def runProgram (budget : Nat) (program : Program) (i : Interpreter) :
    Option (Value × Interpreter) :=
  runStatements budget program .undefined { i with topLocals := ∅ }

/-- Reads a source and runs it. If it cannot be read, nothing of it runs. -/
def eval (budget : Nat) (source : String) (i : Interpreter) :
    Except SourceError (Option (Value × Interpreter)) :=
  (Program.ofText source).map fun program => i.runProgram budget program

/-- Calls a function by its name and namespace. -/
def call (budget : Nat) (qualifier : Option String) (name : String) (args : Arguments)
    (i : Interpreter) : Option (Except Fault Value × Interpreter) :=
  match i.dispatchStatic qualifier name args with
  | .ok d => Eval.invoke budget d args i
  | .error fault => some (.error fault, i)

/-- The key of a global variable, whose name may be given with its mark. -/
def globalKey (i : Interpreter) (name : String) : String :=
  i.fold (String.ofList (name.toList.dropWhile (· == '$')))

def getGlobal (i : Interpreter) (name : String) : Value :=
  i.globals.value (i.globalKey name)

def setGlobal (i : Interpreter) (name : String) (v : Value) : Interpreter :=
  i.setGlobalKey (i.globalKey name) v

def field (i : Interpreter) (reference : Value) (name : String) : Except Fault Value := do
  let id ← i.objects.resolve reference
  i.objects.field id name

def setField (i : Interpreter) (reference : Value) (name : String) (v : Value) :
    Except Fault Interpreter := do
  let id ← i.objects.resolve reference
  let objects ← i.objects.setField id name v
  return { i with objects := objects }

def activate (i : Interpreter) (package : String) : Except Fault Interpreter :=
  (i.functions.activate package).map fun r => { i with functions := r }

def deactivate (i : Interpreter) (package : String) : Interpreter :=
  { i with functions := i.functions.deactivate package }

def registerClass (i : Interpreter) (name : String) (parent : Option String) : Interpreter :=
  { i with objects := i.objects.registerClass name parent }

/-- Adds a function of the host, or a method, which gets its object as the first argument. -/
def registerChangingHost (i : Interpreter) (qualifier : Option String) (name : String)
    (f : ChangingHost) : Interpreter :=
  { i with functions := i.functions.define (i.functions.key qualifier name) (.host f) }

/-- Adds a function of the host that has no state of its own. -/
def registerHost (i : Interpreter) (qualifier : Option String) (name : String)
    (f : HostFunction) : Interpreter :=
  i.registerChangingHost qualifier name fun _ => f

def takeFaults (i : Interpreter) : List Fault × Interpreter :=
  (i.faults, { i with faults := [] })

def takeOutput (i : Interpreter) : String × Interpreter :=
  (i.output, { i with output := "" })

end TorqueScript.Interpreter
