import TurtleScript.CommandTable
import TurtleScript.Keyword
import TurtleScript.Skip

/-!
Procedures that a script has defined so far. A procedure is the index of the first token of its
body; it has no parameters, and calling it runs the tokens from there to the next `end`.
-/

namespace TurtleScript

structure Procedures where
  bodies : List (String × Nat)

namespace Procedures

def empty : Procedures := ⟨[]⟩

def find? (procedures : Procedures) (name : String) : Option Nat :=
  procedures.bodies.lookup name

def contains (procedures : Procedures) (name : String) : Bool :=
  (procedures.find? name).isSome

/-- Adds a procedure. Primitives win over procedures, the words of the language cannot be
redefined, and the first definition of a name stays. -/
def define (procedures : Procedures) (table : CommandTable) (name : Token) (body : Nat) :
    Except Skip Procedures :=
  if table.contains name.text then .error (.shadowsPrimitive name.text)
  else if name.isReserved then .error (.reservedName name.text)
  else if procedures.contains name.text then .error (.redefined name.text)
  else .ok ⟨(name.text, body) :: procedures.bodies⟩

/-- The names of the procedures, in the order of their characters. -/
def names (procedures : Procedures) : List String :=
  (procedures.bodies.map Prod.fst).mergeSort

end Procedures

end TurtleScript
