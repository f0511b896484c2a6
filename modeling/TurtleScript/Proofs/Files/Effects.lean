import TurtleScript.Files.Effect
import TurtleScript.Proofs.Files.Storage

/-!
What has come of a list of effects that was worked off without a failure. Each effect was done in
the tree that the ones before it left. A file that was written into a directory is there at the end
if nothing after it was written under its name.
-/

namespace TurtleScript

namespace Effect

/-- An effect that succeeds in one tree leaves another. -/
inductive Does : Effect → FileTree → FileTree → Prop
  | log (record : Log.Record) (tree : FileTree) : Does (.log record) tree tree
  | write {path contents : String} {tree written : FileTree}
      (h : tree.write path contents.toUTF8 = .ok written) :
      Does (.write path contents) tree written
  | makeDirectories {path : String} {tree made : FileTree}
      (h : tree.makeDirectories path = (made, none)) : Does (.makeDirectories path) tree made

/-- Effects that succeed one after the other. -/
inductive DoesAll : List Effect → FileTree → FileTree → Prop
  | nil (tree : FileTree) : DoesAll [] tree tree
  | cons {effect : Effect} {rest : List Effect} {tree middle later : FileTree}
      (h : Does effect tree middle) (hrest : DoesAll rest middle later) :
      DoesAll (effect :: rest) tree later

variable {tree later : FileTree} {effects before after : List Effect}

/-- Effects that are worked off without a failure have all succeeded. -/
theorem doesAll_perform (h : (perform tree effects).failure = none) :
    DoesAll effects tree (perform tree effects).tree := by
  induction effects generalizing tree with
  | nil => exact .nil tree
  | cons effect rest ih =>
      cases effect with
      | log record => exact .cons (.log record tree) (ih h)
      | write path contents =>
          unfold perform at h ⊢
          cases hwrite : tree.write path contents.toUTF8 with
          | error e =>
              rw [hwrite] at h
              cases h
          | ok written =>
              rw [hwrite] at h
              exact .cons (.write hwrite) (ih h)
      | makeDirectories path =>
          unfold perform at h ⊢
          cases hmake : tree.makeDirectories path with
          | mk made failure =>
              rw [hmake] at h
              cases failure with
              | some e => cases h
              | none => exact .cons (.makeDirectories hmake) (ih h)

theorem DoesAll.split (h : DoesAll (before ++ after) tree later) :
    ∃ middle, DoesAll before tree middle ∧ DoesAll after middle later := by
  induction before generalizing tree with
  | nil => exact ⟨tree, .nil tree, h⟩
  | cons effect rest ih =>
      cases h with
      | cons hfirst hrest =>
          obtain ⟨middle, hbefore, hafter⟩ := ih hrest
          exact ⟨middle, .cons hfirst hbefore, hafter⟩

/-- An effect that writes nothing under a name in a directory: it logs something, or writes a file
of another name into that directory. -/
def Spares (directory name : String) (effect : Effect) : Prop :=
  (∃ record, effect = .log record) ∨
    ∃ other contents, Path.IsFileName other ∧ other ≠ name ∧
      effect = .write (Path.join directory other) contents

/-- A file stays as it is while effects spare it. -/
theorem DoesAll.stored {directory name : String} {contents : ByteArray}
    (h : DoesAll effects tree later) (hname : Path.IsFileName name)
    (hspares : ∀ effect ∈ effects, Spares directory name effect)
    (hstored : tree.Stored (Path.join directory name) contents) :
    later.Stored (Path.join directory name) contents := by
  induction h with
  | nil tree => exact hstored
  | @cons effect rest tree middle later hfirst _ ih =>
      obtain ⟨heffect, hrest⟩ := List.forall_mem_cons.mp hspares
      apply ih hrest
      rcases heffect with ⟨record, rfl⟩ | ⟨other, text, hother, hne, rfl⟩
      · cases hfirst
        exact hstored
      · cases hfirst with
        | write hwrite => exact hstored.write_of_ne hname hother hne hwrite

/-- The last file that was written under a name is there at the end. -/
theorem DoesAll.stored_last {directory name text : String}
    (h : DoesAll (before ++ .write (Path.join directory name) text :: after) tree later)
    (hname : Path.IsFileName name) (hspares : ∀ effect ∈ after, Spares directory name effect) :
    later.Stored (Path.join directory name) text.toUTF8 := by
  obtain ⟨middle, -, hrest⟩ := h.split
  cases hrest with
  | cons hfirst hafter =>
      cases hfirst with
      | write hwrite => exact hafter.stored hname hspares (FileTree.stored_write hwrite)

end Effect

end TurtleScript
