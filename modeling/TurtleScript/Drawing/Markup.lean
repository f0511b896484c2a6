/-!
Tags with attributes as text. Attributes are written in the order of their names and their values
are not escaped: a value with a double quote in it stands in single quotes, and an attribute whose
value has both kinds of quotes is left out.
-/

namespace TurtleScript

namespace Markup

structure Attribute where
  name : String
  value : String
  deriving DecidableEq, Repr

namespace Attribute

/-- The quote that a value can stand in. -/
def quote? (value : String) : Option Char :=
  if !value.toList.contains '"' then some '"'
  else if !value.toList.contains '\'' then some '\''
  else none

def text (a : Attribute) : String :=
  match quote? a.value with
  | some q => " " ++ a.name ++ "=" ++ String.singleton q ++ a.value ++ String.singleton q
  | none => ""

end Attribute

structure Tag where
  name : String
  attributes : List Attribute
  deriving DecidableEq, Repr

namespace Tag

def sorted (t : Tag) : List Attribute :=
  t.attributes.mergeSort fun a b => decide (a.name ≤ b.name)

/-- The inside of a tag: its name and its attributes. -/
def inside (t : Tag) : String :=
  t.name ++ String.join (t.sorted.map Attribute.text)

end Tag

/-- A root with children that have none. -/
structure Document where
  root : Tag
  children : List Tag
  deriving DecidableEq, Repr

namespace Document

/-- Every child stands on a line of its own, and nothing follows the closing tag. -/
def text (d : Document) : String :=
  "<" ++ d.root.inside ++ ">\n" ++
    String.join (d.children.map fun t => "<" ++ t.inside ++ "/>\n") ++
    "</" ++ d.root.name ++ ">"

end Document

end Markup

end TurtleScript
