import TurtleScript.Procedures

/-!
The state of one run of a script, and what is reported of it at the end. The procedures, the
counters and the turtle outlive a token; the cursor does not, it belongs to the frame that is
being run.
-/

namespace TurtleScript

universe u

/-- Limits on a run. A well-behaved script needs neither. -/
structure Limits where
  /-- How many procedure calls and loop bodies may be open inside each other. -/
  depth : Nat
  /-- The number of steps after which the whole run stops. -/
  steps : Option Nat
  deriving DecidableEq, Repr

namespace Limits

def standard : Limits := ⟨512, none⟩

end Limits

/-- What happened during a run, apart from what the turtle did. -/
structure Report where
  skipped : List Skip
  procedures : List String
  truncated : Bool
  deriving DecidableEq, Repr

/-- A session on a turtle with states of a type `σ`. -/
structure Session (σ : Type u) where
  turtle : σ
  procedures : Procedures
  steps : Nat
  skipped : Array Skip
  /-- Whether the run was cut short by the limit on its steps. -/
  truncated : Bool

namespace Session

variable {σ : Type u}

/-- A session in which nothing has been run. -/
def new (turtle : σ) : Session σ where
  turtle := turtle
  procedures := .empty
  steps := 0
  skipped := #[]
  truncated := false

/-- Counts one step. -/
def tick (s : Session σ) : Session σ :=
  { s with steps := s.steps + 1 }

def skip (s : Session σ) (reason : Skip) : Session σ :=
  { s with skipped := s.skipped.push reason }

/-- Marks the run as cut short. -/
def cut (s : Session σ) : Session σ :=
  { s with truncated := true }

/-- Whether the limit on the steps of a run has been reached. -/
def exhausted (s : Session σ) (limit : Option Nat) : Bool :=
  match limit with
  | some m => m ≤ s.steps
  | none => false

/-- Adds a procedure, or records why it cannot be added. -/
def define (s : Session σ) (table : CommandTable) (name : Token) (body : Nat) : Session σ :=
  match s.procedures.define table name body with
  | .ok procedures => { s with procedures := procedures }
  | .error reason => s.skip reason

def report (s : Session σ) : Report where
  skipped := s.skipped.toList
  procedures := s.procedures.names
  truncated := s.truncated

end Session

end TurtleScript
