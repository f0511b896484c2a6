import TurtleScript.Files.Host
import TurtleScript.Log

/-!
What a program does to the file system, as a list that is worked off in order and ends at the
first failure.
-/

namespace TurtleScript

inductive Effect where
  | makeDirectories (path : String)
  | write (path contents : String)
  | log (record : Log.Record)
  deriving DecidableEq, Repr

namespace Effect

/-- How the failure of an effect is reported. -/
def failure (reason : String) : Effect → String
  | makeDirectories _ => reason
  | write path _ => "failed to write " ++ path ++ ": " ++ reason
  | log _ => reason

/-- What has come of a list of effects. -/
structure Outcome where
  tree : FileTree
  log : List Log.Record
  /-- The report of the effect that failed, if one did. -/
  failure : Option String

/-- Works off a list of effects on a file tree. -/
def perform (tree : FileTree) : List Effect → Outcome
  | [] => ⟨tree, [], none⟩
  | log record :: rest =>
      let outcome := perform tree rest
      { outcome with log := record :: outcome.log }
  | write path contents :: rest =>
      match tree.write path contents.toUTF8 with
      | .ok written => perform written rest
      | .error e => ⟨tree, [], some ((write path contents).failure e.message)⟩
  | makeDirectories path :: rest =>
      match tree.makeDirectories path with
      | (made, none) => perform made rest
      | (made, some e) => ⟨made, [], some ((makeDirectories path).failure e.message)⟩

/-- Works off a list of effects on a host. Gives the log, and the report of the effect that failed
if one did. -/
def performOn {m : Type → Type} [Monad m] (host : Host m) :
    List Effect → m (List Log.Record × Option String)
  | [] => return ([], none)
  | log record :: rest => do
      let done ← performOn host rest
      return (record :: done.1, done.2)
  | write path contents :: rest => do
      match ← host.write path contents with
      | .ok _ => performOn host rest
      | .error e => return ([], some ((write path contents).failure e.message))
  | makeDirectories path :: rest => do
      match ← host.makeDirectories path with
      | .ok _ => performOn host rest
      | .error e => return ([], some ((makeDirectories path).failure e.message))

end Effect

end TurtleScript
