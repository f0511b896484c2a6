import TurtleScript.Command

/-!
Command tables: the primitive commands of a script by name. A table is fixed before a run; most
runs use the standard one. A primitive takes no input or a single number.
-/

namespace TurtleScript

inductive Action where
  | plain (command : Command)
  | numeric (make : Float → Command)

namespace Action

def arity : Action → Nat
  | plain _ => 0
  | numeric _ => 1

def takesNumber (a : Action) : Bool :=
  a.arity == 1

end Action

/-- Rows of names and actions, the latest first. An earlier row of the same name is hidden. -/
structure CommandTable where
  rows : List (String × Action)

namespace CommandTable

/-- A table in which, of two rows with the same name, the last one counts. -/
def ofRows (rows : List (String × Action)) : CommandTable :=
  ⟨rows.reverse⟩

def find? (table : CommandTable) (name : String) : Option Action :=
  table.rows.lookup name

def contains (table : CommandTable) (name : String) : Bool :=
  (table.find? name).isSome

/-- The names of a table, in the order of their characters. -/
def names (table : CommandTable) : List String :=
  (table.rows.map Prod.fst).eraseDups.mergeSort

def standardRows : List (String × Action) :=
  [("forward", .numeric .forward),
   ("fd", .numeric .forward),
   ("back", .numeric .back),
   ("backward", .numeric .back),
   ("bk", .numeric .back),
   ("right", .numeric .right),
   ("rt", .numeric .right),
   ("left", .numeric .left),
   ("lt", .numeric .left),
   ("setheading", .numeric .setHeading),
   ("seth", .numeric .setHeading),
   ("penup", .plain .penUp),
   ("pu", .plain .penUp),
   ("pendown", .plain .penDown),
   ("pd", .plain .penDown),
   ("home", .plain .home)]

def standard : CommandTable :=
  ofRows standardRows

theorem mem_standardRows_of_find? {name : String} {action : Action}
    (h : standard.find? name = some action) : (name, action) ∈ standardRows := by
  obtain ⟨before, after, hrows, -⟩ := List.lookup_eq_some_iff.mp h
  have hmem : (name, action) ∈ standard.rows := by simp [hrows]
  exact List.mem_reverse.mp hmem

end CommandTable

end TurtleScript
