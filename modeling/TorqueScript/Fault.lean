/-!
What can go wrong while a script runs. A fault ends the statement it arises in and
nothing more.
-/

namespace TorqueScript

inductive Fault where
  | unknownFunction (name : String)
  | noParent (name : String)
  | unknownPackage (name : String)
  | nameTaken (name : String)
  | deletedObject (reference : String)
  | unknownObject (reference : String)
  | unknownDatablock (name parent : String)
  | divisionByZero
  | tooDeep (limit : Nat)
  | hostFailure (function message : String)
deriving DecidableEq

def Fault.message : Fault → String
  | unknownFunction name => "unknown function: " ++ name
  | noParent name => "no parent definition of " ++ name
  | unknownPackage name => "unknown package: " ++ name
  | nameTaken name => "an object named '" ++ name ++ "' already exists"
  | deletedObject reference => "object '" ++ reference ++ "' has been deleted"
  | unknownObject reference => "unable to find object: '" ++ reference ++ "'"
  | unknownDatablock name parent =>
    "datablock " ++ name ++ " inherits from unknown datablock '" ++ parent ++ "'"
  | divisionByZero => "division by zero"
  | tooDeep limit => "stack overflow: call depth exceeded " ++ toString limit
  | hostFailure function message => function ++ ": " ++ message

end TorqueScript
