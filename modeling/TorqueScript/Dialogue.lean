import TorqueScript.Interpreter.Session

/-!
A dialogue with an interpreter: each line that is typed runs as a source of its own,
in the state that the lines before it left.
-/

namespace TorqueScript.Dialogue

def prompt : String := ">> "

/-- The answer to a value: its text on a line, or nothing if it is undefined. -/
def showValue (v : Value) : String :=
  if v.isUndefined then "" else v.toText ++ "\n"

def showFaults (faults : List Fault) : String :=
  String.join (faults.map fun fault => "ERROR: " ++ fault.message ++ "\n")

/-- What a line is answered: the output first, then the faults and the value. -/
def respond (budget : Nat) (line : String) (i : Interpreter) : Option (String × Interpreter) :=
  match i.eval budget line with
  | .error e => some ("\t" ++ e.message ++ "\n", i)
  | .ok none => none
  | .ok (some (v, i)) =>
    let (output, i) := i.takeOutput
    let (faults, i) := i.takeFaults
    some (output ++ showFaults faults ++ showValue v, i)

/-- The lines of a text, each with the newline that ends it. The last one may have none. -/
def lines : List Char → List Char → List String
  | [], [] => []
  | [], current => [String.ofList current.reverse]
  | '\n' :: cs, current => String.ofList ('\n' :: current).reverse :: lines cs []
  | c :: cs, current => lines cs (c :: current)

/-- All that is written while the lines are typed; the last prompt is met by the end of input. -/
def transcriptFrom (budget : Nat) : List String → Interpreter → Option String
  | [], _ => some prompt
  | line :: rest, i =>
    match respond budget line i with
    | none => none
    | some (answer, i) =>
      (transcriptFrom budget rest i).map fun later => prompt ++ answer ++ later

def transcript (budget : Nat) (input : String) (i : Interpreter) : Option String :=
  transcriptFrom budget (lines input.toList []) i

end TorqueScript.Dialogue
