import TurtleScript.Token

/-!
The bracket that closes a loop body which is stepped over without being run.
-/

namespace TurtleScript

namespace Bracket

/-- The index at or after `start` of the bracket that closes the body when `depth` brackets opened
inside it are still open, or the number of tokens if it is never closed. -/
def closeFrom (tokens : Array Token) (depth start : Nat) : Nat :=
  if h : start < tokens.size then
    if tokens[start] = .opening then closeFrom tokens (depth + 1) (start + 1)
    else if tokens[start] = .closing then
      match depth with
      | 0 => start
      | outer + 1 => closeFrom tokens outer (start + 1)
    else closeFrom tokens depth (start + 1)
  else tokens.size
termination_by tokens.size - start

/-- The index of the bracket closing a body that starts at `body`, or the number of tokens if it is
never closed. -/
def close (tokens : Array Token) (body : Nat) : Nat :=
  closeFrom tokens 0 body

end Bracket

end TurtleScript
