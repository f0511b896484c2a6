import TurtleScript.Interpreter.Session
import TurtleScript.Proofs.Interpreter.Walk

/-!
Scripts as trees. A structured script is a list of definitions and statements, and its tokens are
the words it is written with. `meaning` runs the tree itself: it knows nothing of cursors, brackets
or stopping places, only of statements, bodies, and how deeply they may be nested.
-/

namespace TurtleScript

namespace Structured

inductive Statement where
  /-- A primitive that takes no input. -/
  | plain (name : Token)
  /-- A primitive with the number it takes. -/
  | numeric (name argument : Token)
  /-- A primitive that takes a number, in front of a word that is none, or of nothing. -/
  | bare (name : Token)
  | save
  | paint (colour : Token)
  | loop (count : Token) (body : List Statement)
  /-- Any other word: a call, if there is such a procedure when it is run. -/
  | word (name : Token)

/-- What stands at the top level of a script. Definitions stand nowhere else. -/
inductive Item where
  | definition (name : Token) (body : List Statement)
  | statement (statement : Statement)

/-- A structured script. -/
abbrev Script := List Item

mutual

/-- The words a statement is written with. -/
def Statement.tokens : Statement → List Token
  | .plain name => [name]
  | .numeric name argument => [name, argument]
  | .bare name => [name]
  | .save => [Keyword.save.token]
  | .paint colour => [Keyword.background.token, colour]
  | .loop count body =>
      [Keyword.repetition.token, count, .opening] ++ blockTokens body ++ [.closing]
  | .word name => [name]

/-- The words a list of statements is written with. -/
def blockTokens : List Statement → List Token
  | [] => []
  | statement :: rest => statement.tokens ++ blockTokens rest

end

def Item.tokens : Item → List Token
  | .definition name body =>
      [Keyword.define.token, name] ++ blockTokens body ++ [Keyword.finish.token]
  | .statement st => st.tokens

def Script.tokens (script : Script) : List Token :=
  script.flatMap Item.tokens

/-- Tokens that a colour or a count may be: anything but a bracket and `end`. -/
def IsOperand (t : Token) : Prop :=
  t ≠ .opening ∧ t ≠ .closing ∧ t ≠ Keyword.finish.token
  deriving Decidable

mutual

/-- Whether a statement is what its constructor says, given the table and the token that stands
after it in the script. -/
def Statement.WellFormed (table : CommandTable) (next : Option Token) : Statement → Prop
  | .plain name =>
      name.isReserved = false ∧ ∃ command, table.find? name.text = some (.plain command)
  | .numeric name argument =>
      name.isReserved = false ∧ (∃ make, table.find? name.text = some (.numeric make)) ∧
        ∃ x, Number.finite? argument.text = some x
  | .bare name =>
      name.isReserved = false ∧ (∃ make, table.find? name.text = some (.numeric make)) ∧
        ∀ t, next = some t → Number.finite? t.text = none
  | .save => True
  | .paint colour => IsOperand colour
  | .loop count body => IsOperand count ∧ BlockWellFormed table (some .closing) body
  | .word name => name.isReserved = false ∧ table.find? name.text = none

/-- Whether all statements of a block in front of a token are well-formed. -/
def BlockWellFormed (table : CommandTable) (next : Option Token) : List Statement → Prop
  | [] => True
  | statement :: rest =>
      statement.WellFormed table ((blockTokens rest).head?.or next) ∧
        BlockWellFormed table next rest

end

/-- Whether a script in front of a token is well-formed. A definition may have any token for a
name. -/
def Script.WellFormed (table : CommandTable) (next : Option Token) : Script → Prop
  | [] => True
  | .definition _ body :: rest =>
      BlockWellFormed table (some Keyword.finish.token) body ∧ Script.WellFormed table next rest
  | .statement st :: rest =>
      st.WellFormed table ((Script.tokens rest).head?.or next) ∧ Script.WellFormed table next rest

/-- What running a piece of a script does. -/
structure Outcome where
  commands : List Command
  skipped : List Skip
  steps : Nat

namespace Outcome

def nothing : Outcome := ⟨[], [], 0⟩

/-- One step that gives the turtle a command. -/
def emit (command : Command) : Outcome := ⟨[command], [], 1⟩

/-- One step that does nothing by itself. -/
def step : Outcome := ⟨[], [], 1⟩

/-- A reason that is noted without a step of its own. -/
def note (reason : Skip) : Outcome := ⟨[], [reason], 0⟩

instance : Append Outcome where
  append a b := ⟨a.commands ++ b.commands, a.skipped ++ b.skipped, a.steps + b.steps⟩

end Outcome

/-- The bodies of the procedures defined so far, the latest first. -/
abbrev Library := List (String × List Statement)

/-- Runs a body in front of the token that closes it. -/
abbrev BodyMeaning := Token → List Statement → Outcome

/-- Runs a body that lies one level deeper, if there is such a level. -/
def nested (below : Option BodyMeaning) (reason : Skip) (close : Token)
    (body : List Statement) : Outcome :=
  match below with
  | some run => run close body
  | none => .note reason

/-- Runs a loop body a number of times. A body that lies too deep is refused once and for all. -/
def passes (below : Option BodyMeaning) (body : List Statement) : Nat → Outcome
  | 0 => .nothing
  | count + 1 =>
      .step ++ nested below (.depthLimit Token.opening.text) .closing body ++
        if below.isSome then passes below body count else .nothing

/-- Runs a statement in front of a token. -/
def Statement.meaning (table : CommandTable) (library : Library) (below : Option BodyMeaning)
    (next : Option Token) : Statement → Outcome
  | .plain name =>
      match table.find? name.text with
      | some (.plain command) => .emit command
      | _ => .nothing
  | .numeric name argument =>
      match table.find? name.text, Number.finite? argument.text with
      | some (.numeric make), some x => .emit (make x)
      | _, _ => .nothing
  | .bare name =>
      match next with
      | some argument => .step ++ .note (.badArgument name.text argument.text)
      | none => .step ++ .note (.missingArgument name.text)
  | .save => .emit .save
  | .paint colour => .emit (.background colour.text)
  | .loop count body =>
      match Integer.leading? count.text with
      | some n => .step ++ passes below body n.toNat
      | none => .step ++ .note (.badCount count.text)
  | .word name =>
      match library.lookup name.text with
      | some body =>
          .step ++ nested below (.depthLimit name.text) Keyword.finish.token body
      | none => .step ++ .note (.unknownCommand name.text)

/-- Runs statements one after the other in front of a token. -/
def blockMeaning (table : CommandTable) (library : Library) (below : Option BodyMeaning)
    (next : Option Token) : List Statement → Outcome
  | [] => .nothing
  | statement :: rest =>
      statement.meaning table library below ((blockTokens rest).head?.or next) ++
        blockMeaning table library below next rest

/-- How bodies are run from a level that may open `room` more inside each other. -/
def deeper (table : CommandTable) (library : Library) : (room : Nat) → Option BodyMeaning
  | 0 => none
  | room + 1 => some fun close body =>
      blockMeaning table library (deeper table library room) (some close) body

/-- Why a procedure of a name cannot be defined, if so. -/
def refusal? (table : CommandTable) (library : Library) (name : Token) : Option Skip :=
  if table.contains name.text then some (.shadowsPrimitive name.text)
  else if name.isReserved then some (.reservedName name.text)
  else if (library.lookup name.text).isSome then some (.redefined name.text)
  else none

/-- Runs a script in front of a token, with bodies nested up to `depth` deep, and tells which
procedures there are in the end. A definition takes effect when it is passed. -/
def Script.meaning (table : CommandTable) (depth : Nat) (next : Option Token) :
    Script → Library → Outcome × Library
  | [], library => (.nothing, library)
  | .definition name body :: rest, library =>
      match refusal? table library name with
      | some reason =>
          let (outcome, final) := Script.meaning table depth next rest library
          (.note reason ++ outcome, final)
      | none => Script.meaning table depth next rest ((name.text, body) :: library)
  | .statement st :: rest, library =>
      let first := st.meaning table library (deeper table library depth)
        ((Script.tokens rest).head?.or next)
      let (outcome, final) := Script.meaning table depth next rest library
      (first ++ outcome, final)

/-- The commands of a whole script and what is reported of it, when it is run from the start with
nothing after it. -/
def Script.record (script : Script) (table : CommandTable) (depth : Nat) :
    List Command × Report :=
  let (outcome, library) := script.meaning table depth none []
  (outcome.commands, ⟨outcome.skipped, (library.map Prod.fst).mergeSort, false⟩)

end Structured

end TurtleScript
