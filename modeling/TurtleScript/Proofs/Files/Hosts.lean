import TurtleScript.Files.Effect

/-!
Programs on a file tree. Each call to the host is told by what the tree answers to it: reading
leaves the tree as it was, writing and making directories leave the tree that comes of it. So a list
of effects worked off on such a host is worked off on the tree.
-/

namespace TurtleScript

variable {locked : String → Option FileError} {input : Except FileError ByteArray}
  {tree : FileTree}

namespace Host

/-- A program goes on with the answer of its first part, in the tree which that has left. -/
theorem run_bind {α β : Type} {program : StateM FileTree α} {next : α → StateM FileTree β}
    {answer : α} {left : FileTree} (h : program.run tree = (answer, left)) :
    (program >>= next).run tree = (next answer).run left := by
  rw [StateT.run_bind, h]
  rfl

theorem run_read (path : String) :
    ((ofTree locked input).read path).run tree = (tree.readUnlocked locked path, tree) := rfl

theorem run_write_of_ok {path contents : String} {written : FileTree}
    (h : tree.write path contents.toUTF8 = .ok written) :
    ((ofTree locked input).write path contents).run tree = (.ok (), written) := by
  simp only [ofTree, StateT.run_modifyGet, h]
  rfl

theorem run_write_of_error {path contents : String} {e : FileError}
    (h : tree.write path contents.toUTF8 = .error e) :
    ((ofTree locked input).write path contents).run tree = (.error e, tree) := by
  simp only [ofTree, StateT.run_modifyGet, h]
  rfl

theorem run_makeDirectories_of_none {path : String} {made : FileTree}
    (h : tree.makeDirectories path = (made, none)) :
    ((ofTree locked input).makeDirectories path).run tree = (.ok (), made) := by
  simp only [ofTree, StateT.run_modifyGet, h]
  rfl

/-- What was made before the failure stays. -/
theorem run_makeDirectories_of_some {path : String} {made : FileTree} {e : FileError}
    (h : tree.makeDirectories path = (made, some e)) :
    ((ofTree locked input).makeDirectories path).run tree = (.error e, made) := by
  simp only [ofTree, StateT.run_modifyGet, h]
  rfl

end Host

namespace Effect

/-- Effects that are worked off on a file tree as a host are worked off on the tree. -/
theorem run_performOn (effects : List Effect) (tree : FileTree) :
    (performOn (.ofTree locked input) effects).run tree =
      (((perform tree effects).log, (perform tree effects).failure),
        (perform tree effects).tree) := by
  induction effects generalizing tree with
  | nil => rfl
  | cons effect rest ih =>
      cases effect with
      | log record =>
          rw [performOn, perform, Host.run_bind (ih tree)]
          rfl
      | write path contents =>
          rw [performOn, perform]
          cases hwrite : tree.write path contents.toUTF8 with
          | ok written =>
              rw [Host.run_bind (Host.run_write_of_ok hwrite)]
              exact ih written
          | error e =>
              rw [Host.run_bind (Host.run_write_of_error hwrite)]
              rfl
      | makeDirectories path =>
          rw [performOn, perform]
          cases hmake : tree.makeDirectories path with
          | mk made failure =>
              cases failure with
              | none =>
                  rw [Host.run_bind (Host.run_makeDirectories_of_none hmake)]
                  exact ih made
              | some e =>
                  rw [Host.run_bind (Host.run_makeDirectories_of_some hmake)]
                  rfl

end Effect

end TurtleScript
