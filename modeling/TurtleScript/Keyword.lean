import TurtleScript.Token

/-!
The words the language keeps for itself, and the role a token plays in a script. A token is a
bracket, a keyword, or a name: the name of a primitive command, of a procedure, or of nothing.
-/

namespace TurtleScript

inductive Keyword where
  /-- Starts a definition. -/
  | define
  /-- Ends a definition. -/
  | finish
  /-- Starts a loop. -/
  | repetition
  /-- Keeps a copy of the drawing. -/
  | save
  /-- Paints the background. -/
  | background
  deriving DecidableEq, Repr

namespace Keyword

def spelling : Keyword → String
  | define => "to"
  | finish => "end"
  | repetition => "repeat"
  | save => "save"
  | background => "bckgr"

def all : List Keyword :=
  [define, finish, repetition, save, background]

def ofText? (text : String) : Option Keyword :=
  all.find? fun k => k.spelling == text

@[simp]
theorem ofText?_spelling (k : Keyword) : ofText? k.spelling = some k := by
  cases k <;> decide

end Keyword

inductive Role where
  | opening
  | closing
  | keyword (word : Keyword)
  | name
  deriving DecidableEq, Repr

namespace Token

def role (t : Token) : Role :=
  if t = opening then .opening
  else if t = closing then .closing
  else
    match Keyword.ofText? t.text with
    | some k => .keyword k
    | none => .name

/-- Reserved tokens can be neither commands nor procedure names. -/
def isReserved (t : Token) : Bool :=
  t.role != .name

end Token

end TurtleScript
