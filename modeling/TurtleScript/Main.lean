import TurtleScript.CommandLine.Draw
import TurtleScript.CommandLine.Trace

/-!
The programs on the files of the machine they run on. The first word of the command line says which
one is meant: `trace` prints what a script makes the turtle do, `draw` draws it.
-/

namespace TurtleScript

namespace CommandLine

/-- The number of a failure, which some calls to the machine report negated. -/
def failureNumber (code : UInt32) : UInt32 :=
  min code (0 - code)

/-- A failure of the machine as one that the programs know. -/
def fileError (e : IO.Error) : FileError :=
  match e with
  | .noFileOrDirectory _ _ _ => .notFound
  | .alreadyExists _ _ _ => .alreadyThere
  | .inappropriateType _ code _ =>
      match failureNumber code with
      | 20 => .notDirectory
      | 21 => .isDirectory
      | _ => .other (toString e)
  | .invalidArgument _ code _ =>
      if failureNumber code = 36 then .nameTooLong else .other (toString e)
  | _ => .other (toString e)

def attempt {α : Type} (action : IO α) : IO (Except FileError α) := do
  try
    return .ok (← action)
  catch e =>
    return .error (fileError e)

/-- Makes the first directory of a list of paths, each of which leads to the one before it, and
before that the others if it cannot be made without them. -/
def makeAlong : List String → IO (Except FileError Unit)
  | [] => return .ok ()
  | path :: outer => do
      let settle (e : FileError) : IO (Except FileError Unit) := do
        match ← attempt (IO.FS.realPath path) with
        | .ok real => return if ← real.isDir then .ok () else .error e
        | .error _ => return .error e
      match ← attempt (IO.FS.createDir path) with
      | .ok _ => return .ok ()
      | .error .notFound =>
          match ← makeAlong outer with
          | .error e => return .error e
          | .ok _ =>
              match ← attempt (IO.FS.createDir path) with
              | .ok _ => return .ok ()
              | .error e => settle e
      | .error e => settle e

/-- The machine itself as a host. -/
def machine : Host IO where
  read path := attempt (IO.FS.readBinFile path)
  readInput := do attempt (← IO.getStdin).readBinToEnd
  write path contents := attempt (IO.FS.writeFile path contents)
  makeDirectories path := makeAlong (Path.ways path)

/-- What the machine's owner wants to see of the log. -/
def threshold : IO Log.Threshold := do
  match ← IO.getEnv "RUST_LOG" with
  | some word => return .ofText word
  | none => return .standard

def conclude (ending : Ending) : IO UInt32 := do
  IO.print ending.output
  IO.eprint ending.errors
  return UInt32.ofNat ending.status

def traceMain (words : List String) : IO UInt32 := do
  conclude (← Trace.runOn machine words)

def drawMain (words : List String) : IO UInt32 := do
  conclude (← Draw.runOn machine words (← threshold) (← IO.monoNanosNow))

end CommandLine

end TurtleScript

def main (words : List String) : IO UInt32 :=
  match words with
  | "trace" :: rest => TurtleScript.CommandLine.traceMain rest
  | "draw" :: rest => TurtleScript.CommandLine.drawMain rest
  | _ => do
      IO.eprint (TurtleScript.CommandLine.Trace.usage ++ TurtleScript.CommandLine.Draw.usage)
      return 2
