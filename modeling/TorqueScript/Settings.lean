import TorqueScript.Text.Blank
import TorqueScript.Text.Letter

/-!
Settings of an interpreter: whether names are told apart by case, and how deeply
calls may nest. Both can be given as environment variables; a value that makes no
sense there is passed over.
-/

namespace TorqueScript

structure Settings where
  /-- When false, all names compare without regard to ASCII case. -/
  caseSensitive : Bool := false
  /-- The deepest nesting of calls; zero for no limit. -/
  maxDepth : Nat := 1024
deriving DecidableEq

/-- The form of a name by which it is looked up. -/
def foldName (caseSensitive : Bool) (name : String) : String :=
  if caseSensitive then name else Text.lowerAscii name

namespace Settings

def fold (s : Settings) (name : String) : String :=
  foldName s.caseSensitive name

def caseVariable : String := "TORQUE_CASE_SENSITIVE"

def depthVariable : String := "TORQUE_MAX_RECURSION_DEPTH"

/-- What a switch is set to by a word. -/
def readSwitch (text : String) : Option Bool :=
  let word := Text.lowerAscii (Text.trimmed text)
  if word ∈ ["1", "true", "yes", "on"] then some true
  else if word ∈ ["0", "false", "no", "off", ""] then some false
  else none

/-- A count that fits in 64 bits, with an optional plus sign. -/
def readCount (text : String) : Option Nat :=
  let digits :=
    match Text.trim text.toList with
    | '+' :: cs => cs
    | cs => cs
  let n := Text.decimalValue digits
  if !digits.isEmpty && digits.all Char.isDigit && decide (n < Nat.pow 2 64) then some n else none

/-- The settings that environment variables give. -/
def ofVariables (lookup : String → Option String) : Settings :=
  let preset : Settings := {}
  { caseSensitive := ((lookup caseVariable).bind readSwitch).getD preset.caseSensitive
    maxDepth := ((lookup depthVariable).bind readCount).getD preset.maxDepth }

end Settings

end TorqueScript
