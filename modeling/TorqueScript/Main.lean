import TorqueScript.Command

/-!
The command as a program. It tells the interpreter the time before each line of a
dialogue and starts its random numbers from the clock.
-/

namespace TorqueScript.Command

/-- More than any run on a real machine can use. -/
def wholeBudget : Nat := Nat.pow 2 62

def reasonUnreadable : IO.Error → String
  | .noFileOrDirectory _ _ _ => noSuchFile
  | e => toString e

partial def converse (started : Nat) (input output : IO.FS.Stream) (i : Interpreter) :
    IO Unit := do
  output.putStr Dialogue.prompt
  output.flush
  let line ← input.getLine
  if line.isEmpty then return
  let now ← IO.monoMsNow
  let time (n : Nat) := now - started + (n - i.asked)
  match Dialogue.respond wholeBudget line
      { i with surroundings := { i.surroundings with time := time } } with
  | none => return
  | some (answer, i) =>
    output.putStr answer
    converse started input output i

def environmentSettings : IO Settings := do
  let caseSensitive ← IO.getEnv Settings.caseVariable
  let depth ← IO.getEnv Settings.depthVariable
  return .ofVariables fun name =>
    if name == Settings.caseVariable then caseSensitive
    else if name == Settings.depthVariable then depth
    else none

def runFile (i : Interpreter) (path : String) : IO (Option Outcome) := do
  try
    let source ← IO.FS.readFile path
    return runScript wholeBudget i path source
  catch e => return some (unreadable path (reasonUnreadable e))

end TorqueScript.Command

open TorqueScript Command

def main (arguments : List String) : IO UInt32 := do
  let settings ← environmentSettings
  let seed ← IO.monoNanosNow
  let i := Interpreter.new settings (.ofSeed seed.toUInt64)
  match arguments with
  | [] =>
    let output ← IO.getStdout
    output.putStr greeting
    converse (← IO.monoMsNow) (← IO.getStdin) output i
    return 0
  | path :: _ =>
    match ← runFile i path with
    | none => return 1
    | some outcome =>
      IO.print outcome.output
      IO.eprint outcome.diagnostics
      return outcome.code.toUInt32
