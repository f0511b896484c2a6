import TurtleScript.Bracket
import TurtleScript.Interpreter.Session

/-!
Running a stretch of tokens. There is no syntax tree: a cursor moves over the tokens, a loop runs
its body by running the tokens after its bracket again, and a call runs the tokens of a procedure
where they were defined. Nothing in a script makes a run fail: tokens that make no sense are
recorded as skipped and stepped over.

A run ends because the cursor only moves forward inside a frame, a loop knows how often it will
enter its body, and the frames open inside each other are limited.
-/

namespace TurtleScript

universe u

/-- The kind of stretch that is being run. -/
inductive Frame where
  /-- The script itself, which runs until the tokens run out. -/
  | top
  /-- A procedure body, which stops at the first `end`. -/
  | procedure
  /-- One pass of a loop body, which stops at the first `end` or at its closing bracket. -/
  | loop
  deriving DecidableEq, Repr

namespace Frame

/-- Frames other than the script itself stop at the first `end`. -/
def isNested (frame : Frame) : Bool :=
  frame != .top

end Frame

/-- What stays fixed during a run. The turtle is a state and the way it follows a command, and
the interpreter never looks at that state. -/
structure Interpreter (σ : Type u) where
  tokens : Array Token
  table : CommandTable
  limits : Limits
  obey : σ → Command → σ

namespace Interpreter

variable {σ : Type u}

/-- Runs a frame of a given kind from an index, and tells where it stopped. -/
abbrev Runner (σ : Type u) :=
  Frame → Nat → Session σ → Nat × Session σ

/-- The outcome of running the token under the cursor. -/
inductive Turn (σ : Type u) where
  /-- The token ends its frame. -/
  | halt (session : Session σ)
  /-- The cursor moves on past the token and the ones consumed after it. `defining` says whether
  the tokens from there on are part of a definition that is being stepped over. -/
  | advance (consumed : Nat) (defining : Bool) (session : Session σ)

/-- Lets the turtle follow a command. -/
def tell (I : Interpreter σ) (s : Session σ) (command : Command) : Session σ :=
  { s with turtle := I.obey s.turtle command }

def exhausted (I : Interpreter σ) (s : Session σ) : Bool :=
  s.exhausted I.limits.steps

/-- Runs a nested frame with `inner`, which is missing if no deeper frame may be opened. -/
def enter (inner : Option (Runner σ)) (token : Token) (frame : Frame) (start : Nat)
    (s : Session σ) : Option Nat × Session σ :=
  match inner with
  | none => (none, s.skip (.depthLimit token.text))
  | some run =>
      let (stop, s) := run frame start s
      (some stop, s)

/-- Passes over a loop body. `last` is the last token of the loop if no pass is left to run. -/
def passes (I : Interpreter σ) (inner : Option (Runner σ)) (body : Nat) :
    (count : Nat) → (last : Nat) → Session σ → Nat × Session σ
  | 0, last, s => (last, s)
  | count + 1, _, s =>
      if I.exhausted s then (I.tokens.size, s.cut)
      else
        match enter inner .opening .loop body s.tick with
        | (some stop, s) => I.passes inner body count stop s
        | (none, s) => (Bracket.close I.tokens body, s)

/-- Runs the loop whose keyword stands at `index`, and tells how many tokens after the keyword
belong to it. A count that is missing, unreadable or not positive gives no pass. -/
def repetition (I : Interpreter σ) (inner : Option (Runner σ)) (index : Nat) (s : Session σ) :
    Nat × Session σ :=
  match I.tokens[index + 1]? with
  | none => (1, s.skip .missingBody)
  | some word =>
      let count := Integer.leading? word.text
      let s := if count.isNone then s.skip (.badCount word.text) else s
      if I.tokens[index + 2]? = some .opening then
        let body := index + 3
        let (last, s) :=
          I.passes inner body (count.getD 0).toNat (Bracket.close I.tokens body) s
        (last - index, s)
      else (1, s.skip .missingBody)

/-- Runs the primitive command at `index`, and tells how many tokens after it are its input. -/
def primitive (I : Interpreter σ) (index : Nat) (name : String) (s : Session σ) :
    Nat × Session σ :=
  match I.table.find? name with
  | none => (0, s.skip (.unknownCommand name))
  | some (.plain command) => (0, I.tell s command)
  | some (.numeric make) =>
      match I.tokens[index + 1]? with
      | none => (0, s.skip (.missingArgument name))
      | some argument =>
          match Number.finite? argument.text with
          | none => (0, s.skip (.badArgument name argument.text))
          | some x => (1, I.tell s (make x))

/-- Starts a definition at `index`. Its name is taken only if a further token follows it. -/
def definition (I : Interpreter σ) (index : Nat) (s : Session σ) : Nat × Session σ :=
  match I.tokens[index + 1]? with
  | some name =>
      if index + 2 < I.tokens.size then (1, s.define I.table name (index + 2)) else (0, s)
  | none => (0, s)

/-- Paints the background with the next token, whatever it is. -/
def paint (I : Interpreter σ) (index : Nat) (s : Session σ) : Nat × Session σ :=
  match I.tokens[index + 1]? with
  | some colour => (1, I.tell s (.background colour.text))
  | none => (0, s)

/-- Runs a name: a procedure if there is one, and else a primitive command. -/
def invoke (I : Interpreter σ) (inner : Option (Runner σ)) (index : Nat) (token : Token)
    (s : Session σ) : Nat × Session σ :=
  match s.procedures.find? token.text with
  | some body => (0, (enter inner token .procedure body s).2)
  | none => I.primitive index token.text s

/-- Runs the token at `index`, which is outside of any definition being stepped over. -/
def active (I : Interpreter σ) (inner : Option (Runner σ)) (frame : Frame) (index : Nat)
    (token : Token) (s : Session σ) : Turn σ :=
  match token.role with
  | .keyword .finish => if frame.isNested then .halt s else .advance 0 false s
  | .keyword .define =>
      let (consumed, s) := I.definition index s
      .advance consumed true s
  | .keyword .save => .advance 0 false (I.tell s.tick .save)
  | .keyword .background =>
      let (consumed, s) := I.paint index s.tick
      .advance consumed false s
  | .keyword .repetition =>
      let (consumed, s) := I.repetition inner index s.tick
      .advance consumed false s
  | .closing => if frame = .loop then .halt s else .advance 0 false s
  | .opening => .advance 0 false s
  | .name =>
      let (consumed, s) := I.invoke inner index token s.tick
      .advance consumed false s

/-- Takes one turn. While a definition is being stepped over, only `end` means anything. -/
def turn (I : Interpreter σ) (inner : Option (Runner σ)) (frame : Frame) (index : Nat)
    (token : Token) (defining : Bool) (s : Session σ) : Turn σ :=
  if defining && token.role != .keyword .finish then .advance 0 true s
  else I.active inner frame index token s

/-- Moves the cursor from `index` until the frame is done. -/
def walk (I : Interpreter σ) (inner : Option (Runner σ)) (frame : Frame) (index : Nat)
    (defining : Bool) (s : Session σ) : Nat × Session σ :=
  if h : index < I.tokens.size then
    if I.exhausted s then (I.tokens.size, s.cut)
    else
      match I.turn inner frame index I.tokens[index] defining s with
      | .halt s => (index, s)
      | .advance consumed defining s => I.walk inner frame (index + 1 + consumed) defining s
  else (I.tokens.size, s)
termination_by I.tokens.size - index

/-- Runs a frame in which `room` more frames may be opened inside each other. -/
def runWithin (I : Interpreter σ) : (room : Nat) → Runner σ
  | 0, frame, start, s => I.walk none frame start false s
  | room + 1, frame, start, s => I.walk (some (I.runWithin room)) frame start false s

/-- Runs the tokens from `start` until the frame is done. The index returned is that of the `end`
or closing bracket that ended the frame, or the number of tokens if the frame ran off them. -/
def run (I : Interpreter σ) (frame : Frame) (start : Nat) (s : Session σ) : Nat × Session σ :=
  I.runWithin I.limits.depth frame start s

end Interpreter

end TurtleScript
