import TurtleScript.CommandLine.Argument
import TurtleScript.Files.Host
import TurtleScript.Files.Script
import TurtleScript.Program

/-!
The program that prints what a script makes the turtle do, one command a line. It reads a file and
changes none.
-/

namespace TurtleScript

namespace CommandLine

namespace Trace

structure Request where
  input : String
  /-- Print the tokens instead of running the script. -/
  tokens : Bool
  /-- Also print what was skipped. -/
  verbose : Bool
  deriving DecidableEq, Repr

/-- A request whose file has not been named yet. -/
structure Draft where
  input : Option String
  tokens : Bool
  verbose : Bool
  deriving DecidableEq, Repr

def usage : String :=
  "Usage: trace [--tokens] [-v|--verbose] <INPUT>\n"

def forms : List OptionForm :=
  [⟨"tokens", none, false⟩, ⟨"verbose", some 'v', false⟩, helpFlag]

def operand (draft : Draft) (text : String) : Option Draft :=
  match draft.input with
  | some _ => none
  | none => (path? text).map fun path => { draft with input := some path }

def option (draft : Draft) (name : String) (_ : Option String) : Option Draft :=
  match name with
  | "tokens" => some { draft with tokens := true }
  | "verbose" => some { draft with verbose := true }
  | _ => none

def parse (words : List String) : Except Refusal Request := do
  let draft ← gather operand option ⟨none, false, false⟩ [] (Argument.ofWords forms words)
  match draft.input with
  | some input => .ok ⟨input, draft.tokens, draft.verbose⟩
  | none => .error .wrongUsage

def unlines (lines : List String) : String :=
  String.join (lines.map fun line => line ++ "\n")

/-- What is printed for the text of a script. -/
def output (request : Request) (source : String) : String :=
  let program := Program.parse source
  if request.tokens then unlines (program.tokens.toList.map Token.text)
  else
    let (commands, report) := program.record .standard .standard
    unlines (commands.toList.map Command.text) ++
      (if request.verbose then
        unlines (report.skipped.map fun skip => "Warning: " ++ skip.message)
       else "")

/-- How the program ends, given what is read from its input file. A failure is printed as
output. -/
def respond (request : Request) (contents : Except FileError ByteArray) : Ending :=
  match Script.textOf contents with
  | .ok source => ⟨0, output request source, ""⟩
  | .error reason =>
      ⟨1, "Failed to open input file " ++ request.input ++ ": " ++ reason.message ++ "\n", ""⟩

/-- Runs the program on a file tree. -/
def run (tree : FileTree) (words : List String) : Ending :=
  match parse words with
  | .ok request => respond request (tree.read request.input)
  | .error refusal => refusal.ending usage

/-- Runs the program on a host. -/
def runOn {m : Type → Type} [Monad m] (host : Host m) (words : List String) : m Ending := do
  match parse words with
  | .ok request => return respond request (← host.read request.input)
  | .error refusal => return refusal.ending usage

end Trace

end CommandLine

end TurtleScript
