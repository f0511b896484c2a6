/-!
Example scripts that come with the program.
-/

namespace TurtleScript

structure Demo where
  name : String
  source : String
  deriving DecidableEq, Repr

namespace Demo

def flower : Demo where
  name := "flower"
  source := "to petal\n" ++
    "  repeat 2 [ fd 60 rt 60 fd 60 rt 120 ]\n" ++
    "end\n" ++
    "\n" ++
    "to flower\n" ++
    "  repeat 12 [ petal rt 30 ]\n" ++
    "end\n" ++
    "\n" ++
    "bckgr 20\n" ++
    "flower\n"

def square : Demo where
  name := "square"
  source := "to square\n" ++
    "  repeat 4 [ fd 100 rt 90 ]\n" ++
    "end\n" ++
    "\n" ++
    "square\n"

def stairs : Demo where
  name := "stairs"
  source := "to step\n" ++
    "  fd 20 rt 90 fd 20 lt 90\n" ++
    "end\n" ++
    "\n" ++
    "pu seth 180 fd 120 seth 270 fd 120 seth 0 pd\n" ++
    "repeat 6 [ step ]\n" ++
    "save\n" ++
    "pu home pd\n" ++
    "repeat 36 [ repeat 4 [ fd 40 rt 90 ] rt 10 ]\n"

def star : Demo where
  name := "star"
  source := "bckgr navy\n" ++
    "pu bk 80 lt 90 fd 10 rt 90 pd\n" ++
    "repeat 5 [ fd 160 rt 144 ]\n"

def all : List Demo :=
  [flower, square, stairs, star]

def find? (name : String) : Option Demo :=
  all.find? fun d => d.name == name

def names : List String :=
  all.map Demo.name

/-- The demo that a number picks, around and around the list. -/
def ofSeed (seed : Nat) : Demo :=
  all.get ⟨seed % all.length, Nat.mod_lt _ (by decide)⟩

end Demo

end TurtleScript
