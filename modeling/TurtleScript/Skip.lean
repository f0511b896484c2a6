/-!
Reasons for stepping over a token instead of running it. None of them stops a run: they are
collected in its report, in the order in which they were met.
-/

namespace TurtleScript

inductive Skip where
  | unknownCommand (token : String)
  | missingArgument (command : String)
  | badArgument (command argument : String)
  | badCount (token : String)
  | missingBody
  | shadowsPrimitive (name : String)
  | reservedName (name : String)
  | redefined (name : String)
  | depthLimit (token : String)
  deriving DecidableEq, Repr

namespace Skip

/-- The words of the script that a reason speaks of. -/
def words : Skip → List String
  | unknownCommand token => [token]
  | missingArgument command => [command]
  | badArgument command argument => [command, argument]
  | badCount token => [token]
  | missingBody => []
  | shadowsPrimitive name => [name]
  | reservedName name => [name]
  | redefined name => [name]
  | depthLimit token => [token]

def message : Skip → String
  | unknownCommand token => "I don't know how to " ++ token
  | missingArgument command => "not enough inputs to " ++ command
  | badArgument command argument => command ++ " doesn't like " ++ argument ++ " as input"
  | badCount token => "repeat doesn't like " ++ token ++ " as a count"
  | missingBody => "repeat needs a [ after its count"
  | shadowsPrimitive name => name ++ " is already a primitive"
  | reservedName name => name ++ " can't be used as a procedure name"
  | redefined name => name ++ " is already defined"
  | depthLimit token => "nesting too deep at " ++ token

end Skip

end TurtleScript
