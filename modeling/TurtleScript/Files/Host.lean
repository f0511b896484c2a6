import TurtleScript.Files.FileTree

/-!
What programs ask of the machine they run on. A program is written once, for any host: on the files
of a machine it does its work, and on a file tree it is a function that statements can be about.
-/

namespace TurtleScript

structure Host (m : Type → Type) where
  read (path : String) : m (Except FileError ByteArray)
  /-- All of the standard input. -/
  readInput : m (Except FileError ByteArray)
  /-- Makes a file or replaces its contents. -/
  write (path contents : String) : m (Except FileError Unit)
  /-- Makes a directory and all the directories on the way to it that are missing. -/
  makeDirectories (path : String) : m (Except FileError Unit)

/-- What is read from a file tree of which some paths are locked. -/
def FileTree.readUnlocked (tree : FileTree) (locked : String → Option FileError) (path : String) :
    Except FileError ByteArray :=
  match locked path with
  | some reason => .error reason
  | none => tree.read path

/-- A file tree as a host. A tree does not say who may read what, so the paths that are locked are
given with it, and so is the standard input. -/
def Host.ofTree (locked : String → Option FileError) (input : Except FileError ByteArray) :
    Host (StateM FileTree) where
  read path := return (← get).readUnlocked locked path
  readInput := return input
  write path contents := modifyGet fun tree =>
    match tree.write path contents.toUTF8 with
    | .ok written => (.ok (), written)
    | .error reason => (.error reason, tree)
  makeDirectories path := modifyGet fun tree =>
    match tree.makeDirectories path with
    | (made, none) => (.ok (), made)
    | (made, some reason) => (.error reason, made)

end TurtleScript
