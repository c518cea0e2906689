import TorqueScript.Dialogue

/-!
The command: it runs a script, or without one holds a dialogue.
-/

namespace TorqueScript.Command

/-- How a run of the command ends: its exit code and what it wrote. -/
structure Outcome where
  code : Nat
  output : String
  diagnostics : String
deriving DecidableEq

def greeting : String :=
  "TorqueScript interpreter\nFeel free to type in commands\n"

/-- Why a file that does not exist cannot be read. -/
def noSuchFile : String :=
  "No such file or directory (os error 2)"

def complain (path message : String) : String :=
  path ++ ": " ++ message ++ "\n"

/-- A script that could not be read. -/
def unreadable (path reason : String) : Outcome :=
  ⟨2, "", complain path reason⟩

/-- Runs a script to its end and then reports its faults. -/
def runScript (budget : Nat) (i : Interpreter) (path source : String) : Option Outcome :=
  match i.eval budget source with
  | .error e => some ⟨1, "", complain path e.message⟩
  | .ok none => none
  | .ok (some (_, i)) =>
    some ⟨if i.faults.isEmpty then 0 else 1, i.output,
      String.join (i.faults.map fun fault => complain path fault.message)⟩

/-- A dialogue over all of the input. -/
def runDialogue (budget : Nat) (i : Interpreter) (input : String) : Option Outcome :=
  (Dialogue.transcript budget input i).map fun text =>
    ⟨0, greeting ++ text, ""⟩

end TorqueScript.Command
