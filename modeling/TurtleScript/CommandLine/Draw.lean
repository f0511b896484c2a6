import TurtleScript.CommandLine.Argument
import TurtleScript.Demo
import TurtleScript.Files.Artifact
import TurtleScript.Text.Quoted

/-!
The program that draws a script. It takes the script from a file, from its standard input or from
the demos, and writes the final drawing and those that the script asked to save. What it does to
the file system is laid down before any of it is done, so a program without a script does nothing.
-/

namespace TurtleScript

namespace CommandLine

namespace Draw

structure Request where
  /-- The file with the script; `-` is the standard input. -/
  input : Option String
  demo : Option String
  listDemos : Bool
  /-- Where the final drawing goes, if not into the output directory. -/
  output : Option String
  directory : String
  /-- Treat tabs and carriage returns in the script as plain separators. -/
  looseSpacing : Bool
  /-- Also save the script into the output directory. -/
  saveScript : Bool
  width : Float
  height : Float
  limits : Limits

def Request.standard : Request where
  input := none
  demo := none
  listDemos := false
  output := none
  directory := "."
  looseSpacing := false
  saveScript := false
  width := Style.standard.width
  height := Style.standard.height
  limits := .standard

def usage : String :=
  "Usage: draw [--demo <DEMO>] [--list-demos] [-o|--output <OUTPUT>] [--out-dir <OUT_DIR>]\n" ++
  "            [--loose-spacing] [--save-script] [--width <WIDTH>] [--height <HEIGHT>]\n" ++
  "            [--max-depth <MAX_DEPTH>] [--max-steps <MAX_STEPS>] [INPUT]\n"

def forms : List OptionForm :=
  [⟨"demo", none, true⟩,
   ⟨"list-demos", none, false⟩,
   ⟨"output", some 'o', true⟩,
   ⟨"out-dir", none, true⟩,
   ⟨"loose-spacing", none, false⟩,
   ⟨"save-script", none, false⟩,
   ⟨"width", none, true⟩,
   ⟨"height", none, true⟩,
   ⟨"max-depth", none, true⟩,
   ⟨"max-steps", none, true⟩,
   helpFlag]

def operand (request : Request) (text : String) : Option Request :=
  match request.input with
  | some _ => none
  | none => (path? text).map fun path => { request with input := some path }

/-- The greatest limit that can be asked for. -/
def greatestLimit : Nat := Nat.pow 2 64 - 1

def limit? (text : String) : Option Nat :=
  Integer.natural? greatestLimit text

def option (request : Request) (name : String) (value : Option String) : Option Request :=
  match name, value with
  | "list-demos", _ => some { request with listDemos := true }
  | "loose-spacing", _ => some { request with looseSpacing := true }
  | "save-script", _ => some { request with saveScript := true }
  | "demo", some demo => some { request with demo := some demo }
  | "output", some text => (path? text).map fun path => { request with output := some path }
  | "out-dir", some text => (path? text).map fun path => { request with directory := path }
  | "width", some text => (Number.read? text).map fun x => { request with width := x }
  | "height", some text => (Number.read? text).map fun x => { request with height := x }
  | "max-depth", some text =>
      (limit? text).map fun n => { request with limits.depth := n }
  | "max-steps", some text =>
      (limit? text).map fun n => { request with limits.steps := some n }
  | _, _ => none

/-- A demo and a file exclude each other. -/
def parse (words : List String) : Except Refusal Request := do
  let request ← gather operand option .standard [] (Argument.ofWords forms words)
  if request.demo.isSome && request.input.isSome then .error .wrongUsage else .ok request

/-- Why the program fails before it has done anything. -/
inductive SourceError where
  | unknownDemo (name : String)
  | badInput (reason : Script.ReadError)
  | badFile (reason : Script.LoadError)
  deriving DecidableEq, Repr

def SourceError.message : SourceError → String
  | unknownDemo name => "no demo called " ++ Text.Quoted.encode name
  | badInput reason => reason.message
  | badFile reason => reason.message

/-- Where the script comes from. -/
inductive Origin where
  | demo (name : String)
  | standardInput
  | file (path : String)
  /-- No script was given, so any demo will do. -/
  | anyDemo
  deriving DecidableEq, Repr

def Request.origin (request : Request) : Origin :=
  match request.demo, request.input with
  | some name, _ => .demo name
  | none, some "-" => .standardInput
  | none, some path => .file path
  | none, none => .anyDemo

/-- A script that is to be drawn, the name of its drawing, and what is logged about it. -/
structure Source where
  name : String
  text : String
  log : List Log.Record
  deriving DecidableEq, Repr

def info (message : String) : Log.Record :=
  ⟨.info, .commandLine, message⟩

/-- The name of a drawing whose script has none. -/
def defaultName : String := "drawing"

/-- The bytes that the program reads: those of its file if it has one, else those of its standard
input. -/
def Origin.bytes (origin : Origin) (tree : FileTree) (input : ByteArray) :
    Except FileError ByteArray :=
  match origin with
  | .file path => tree.read path
  | _ => .ok input

/-- Reads the bytes of the script on a host, for an origin that has any. A file that is no script is
not opened. -/
def Origin.fetch {m : Type → Type} [Monad m] (origin : Origin) (host : Host m) :
    m (Except FileError ByteArray) := do
  match origin with
  | .file path => if Script.isScriptPath path then host.read path else return .ok .empty
  | .standardInput => host.readInput
  | .demo _ | .anyDemo => return .ok .empty

/-- The script from an origin, given the bytes read there. The seed picks a demo if any will do. -/
def Origin.source (origin : Origin) (bytes : Except FileError ByteArray) (seed : Nat) :
    Except SourceError Source :=
  match origin with
  | .demo name =>
      match Demo.find? name with
      | some found => .ok ⟨name, found.source, []⟩
      | none => .error (.unknownDemo name)
  | .standardInput =>
      match Script.textOf bytes with
      | .ok text => .ok ⟨defaultName, text, []⟩
      | .error reason => .error (.badInput reason)
  | .file path =>
      match Script.loaded path bytes with
      | .ok text => .ok ⟨(Path.stem? path).getD defaultName, text, []⟩
      | .error reason => .error (.badFile reason)
  | .anyDemo =>
      let picked := Demo.ofSeed seed
      .ok ⟨picked.name, picked.source,
        [info ("no script given, drawing the " ++ picked.name ++ " demo")]⟩

def Request.style (request : Request) : Style :=
  { Style.standard with width := request.width, height := request.height }

/-- The text that is drawn for a script. -/
def Request.drawnText (request : Request) (source : Source) : String :=
  if request.looseSpacing then Script.plainSpacing source.text else source.text

def Request.outputPath (request : Request) (source : Source) : String :=
  request.output.getD (Path.join request.directory (source.name ++ ".svg"))

/-- Everything the program does once it has its script, in order. -/
def Request.effects (request : Request) (source : Source) : List Effect :=
  let text := request.drawnText source
  let rendering := render text request.style request.limits
  let skipped := rendering.report.skipped.length
  source.log.map .log ++
    [.makeDirectories request.directory] ++
    (if request.saveScript then Artifact.saveScript request.directory text else []) ++
    rendering.log.map .log ++
    (if skipped = 0 then []
     else [.log (info (Nat.repr skipped ++
       " tokens skipped (run with RUST_LOG=debug to see them)"))]) ++
    Artifact.saveDrawings rendering.canvas request.directory Artifact.standardName ++
    Artifact.writeLogged (request.outputPath source) rendering.canvas.picture.text
      .commandLine "wrote"

/-- How the program ends when its work has left a log and perhaps failed. -/
def ending (threshold : Log.Threshold) (log : List Log.Record) (failure : Option String) :
    Ending :=
  let lines := Log.lines threshold log
  match failure with
  | none => ⟨0, "", lines⟩
  | some message => ⟨1, "", lines ++ "Error: " ++ message ++ "\n"⟩

def listing : Ending :=
  ⟨0, String.join (Demo.names.map fun name => name ++ "\n"), ""⟩

/-- Runs the program on a file tree, and gives the tree it leaves. -/
def run (tree : FileTree) (words : List String) (input : ByteArray)
    (threshold : Log.Threshold) (seed : Nat) : FileTree × Ending :=
  match parse words with
  | .error refusal => (tree, refusal.ending usage)
  | .ok request =>
      if request.listDemos then (tree, listing)
      else
        match request.origin.source (request.origin.bytes tree input) seed with
        | .error reason => (tree, ending threshold [] (some reason.message))
        | .ok source =>
            let outcome := Effect.perform tree (request.effects source)
            (outcome.tree, ending threshold outcome.log outcome.failure)

/-- Runs the program on a host. -/
def runOn {m : Type → Type} [Monad m] (host : Host m) (words : List String)
    (threshold : Log.Threshold) (seed : Nat) : m Ending := do
  match parse words with
  | .error refusal => return refusal.ending usage
  | .ok request =>
      if request.listDemos then return listing
      else
        match request.origin.source (← request.origin.fetch host) seed with
        | .error reason => return ending threshold [] (some reason.message)
        | .ok source =>
            let done ← Effect.performOn host (request.effects source)
            return ending threshold done.1 done.2

end Draw

end CommandLine

end TurtleScript
