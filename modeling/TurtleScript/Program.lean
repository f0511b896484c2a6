import TurtleScript.Interpreter.Frame

/-!
Whole scripts. Every run of a program starts afresh, so procedures defined by an earlier run are
forgotten.
-/

namespace TurtleScript

universe u

structure Program where
  tokens : Array Token
  deriving DecidableEq, Repr

namespace Program

variable {σ : Type u}

def parse (text : String) : Program :=
  ⟨(Token.tokenize text).toArray⟩

/-- Runs a program on a turtle, given by its state and the way it follows a command. -/
def runOn (p : Program) (table : CommandTable) (limits : Limits) (obey : σ → Command → σ)
    (turtle : σ) : σ × Report :=
  let I : Interpreter σ := ⟨p.tokens, table, limits, obey⟩
  let (_, s) := I.run .top 0 (.new turtle)
  (s.turtle, s.report)

/-- The commands of a run, as a turtle writes them down that does nothing else. -/
def record (p : Program) (table : CommandTable) (limits : Limits) : Array Command × Report :=
  p.runOn table limits Array.push #[]

end Program

end TurtleScript
