import TurtleScript.Files.FileTree
import TurtleScript.Proofs.Files.Paths

/-!
What writing a file does to a file tree. It changes one place, which was no directory before, so
every path that led somewhere still leads there: a path is followed through directories only. A
file therefore holds what was written to it until something is written to the same place.
-/

namespace TurtleScript

namespace FileTree

theorem bind_eq_ok_iff {ε α β : Type} {x : Except ε α} {f : α → Except ε β} {b : β} :
    (x >>= f) = .ok b ↔ ∃ a, x = .ok a ∧ f a = .ok b := by
  cases x with
  | error e =>
      constructor
      · intro h
        cases h
      · rintro ⟨a, ha, -⟩
        cases ha
  | ok a =>
      constructor
      · intro h
        exact ⟨a, rfl, h⟩
      · rintro ⟨a', ha, hb⟩
        cases ha
        exact hb

/-- One tree has all the directories of another. -/
def KeepsDirectories (tree later : FileTree) : Prop :=
  ∀ place, tree.get? place = some .directory → later.get? place = some .directory

variable {tree later : FileTree} {path : String} {place : Location} {contents : ByteArray}

/-- A path is followed through directories only. -/
theorem step_eq_ok_iff {segment : String} {next : Location} :
    tree.step place segment = .ok next ↔
      tree.get? place = some .directory ∧ segment.utf8ByteSize ≤ Location.longestName ∧
        place.follow segment = next := by
  unfold step
  cases hentry : tree.get? place with
  | none => simp
  | some entry =>
      cases entry with
      | file bytes => simp
      | directory =>
          by_cases hlong : segment.utf8ByteSize > Location.longestName
          · simp [hlong, Nat.not_le.mpr hlong]
          · simp [hlong, Nat.le_of_not_lt hlong]

theorem KeepsDirectories.follow (h : tree.KeepsDirectories later) {segments : List String}
    {next : Location} (hfollow : tree.follow place segments = .ok next) :
    later.follow place segments = .ok next := by
  induction segments generalizing place with
  | nil => exact hfollow
  | cons segment rest ih =>
      obtain ⟨middle, hstep, hrest⟩ := bind_eq_ok_iff.mp hfollow
      obtain ⟨hdirectory, hshort, hmiddle⟩ := step_eq_ok_iff.mp hstep
      exact bind_eq_ok_iff.mpr
        ⟨middle, step_eq_ok_iff.mpr ⟨h place hdirectory, hshort, hmiddle⟩, ih hrest⟩

/-- What a path leads to, it leads to in every tree with the same directories. -/
theorem KeepsDirectories.locate (h : tree.KeepsDirectories later)
    (hlocate : tree.locate path = .ok place) : later.locate path = .ok place := by
  obtain ⟨origin, horigin, hfollow⟩ := bind_eq_ok_iff.mp hlocate
  exact bind_eq_ok_iff.mpr ⟨origin, horigin, h.follow hfollow⟩

theorem follow_concat {segments : List String} {segment : String} {next : Location}
    (h : tree.follow place (segments ++ [segment]) = .ok next) :
    ∃ middle, tree.follow place segments = .ok middle ∧ tree.step middle segment = .ok next := by
  induction segments generalizing place with
  | nil =>
      obtain ⟨last, hstep, hlast⟩ := bind_eq_ok_iff.mp h
      cases hlast
      exact ⟨place, rfl, hstep⟩
  | cons first rest ih =>
      obtain ⟨second, hstep, hrest⟩ := bind_eq_ok_iff.mp h
      obtain ⟨middle, hmiddle, hlast⟩ := ih hrest
      exact ⟨middle, bind_eq_ok_iff.mpr ⟨second, hstep, hmiddle⟩, hlast⟩

/-- The place of a file in a directory has the name of the file. -/
theorem exists_locate_join {directory name : String} (hname : Path.IsFileName name)
    (h : tree.locate (Path.join directory name) = .ok place) :
    ∃ holder, place = name :: holder := by
  obtain ⟨origin, -, hfollow⟩ := bind_eq_ok_iff.mp h
  rw [Path.segments_join hname] at hfollow
  obtain ⟨holder, -, hstep⟩ := follow_concat hfollow
  obtain ⟨-, -, hplace⟩ := step_eq_ok_iff.mp hstep
  refine ⟨holder, ?_⟩
  rw [← hplace, Location.follow, if_neg hname.not_here, if_neg hname.not_above]

/-- A write that succeeds puts a file at the place of its path, where no directory was. -/
theorem write_eq_ok {written : FileTree} (h : tree.write path contents = .ok written) :
    ∃ place, tree.locate path = .ok place ∧ tree.get? place ≠ some .directory ∧
      Path.endsInSlash path = false ∧ written = tree.insert place (.file contents) := by
  obtain ⟨_, -, h⟩ := bind_eq_ok_iff.mp h
  cases hslash : Path.endsInSlash path with
  | true =>
      rw [hslash] at h
      cases h
  | false =>
      rw [hslash] at h
      obtain ⟨place, hlocate, h⟩ := bind_eq_ok_iff.mp h
      by_cases hdirectory : tree.get? place = some .directory
      · simp [hdirectory] at h
      · refine ⟨place, hlocate, hdirectory, rfl, ?_⟩
        simpa [hdirectory] using h.symm

/-- Anchors are directories. -/
theorem isAnchor_eq_false (h : tree.get? place ≠ some .directory) : place.isAnchor = false := by
  rw [Bool.eq_false_iff]
  intro hanchor
  simp [get?, hanchor] at h

theorem keepsDirectories_insert (h : tree.get? place ≠ some .directory) (entry : Entry) :
    tree.KeepsDirectories (tree.insert place entry) := by
  intro other hother
  have hne : other ≠ place := by
    rintro rfl
    exact h hother
  rw [tree.get?_insert_of_ne entry hne]
  exact hother

/-- A path at which a file with the given contents stands. -/
structure Stored (tree : FileTree) (path : String) (contents : ByteArray) : Prop where
  file : ∃ place, tree.locate path = .ok place ∧ tree.get? place = some (.file contents)
  no_slash : Path.endsInSlash path = false

theorem Stored.read (h : tree.Stored path contents) : tree.read path = .ok contents := by
  obtain ⟨⟨place, hlocate, hentry⟩, hslash⟩ := h
  refine bind_eq_ok_iff.mpr ⟨place, hlocate, ?_⟩
  simp [hentry, hslash]

/-- What has been written is there. -/
theorem stored_write {written : FileTree} (h : tree.write path contents = .ok written) :
    written.Stored path contents := by
  obtain ⟨place, hlocate, hfree, hslash, rfl⟩ := write_eq_ok h
  refine ⟨⟨place, (keepsDirectories_insert hfree _).locate hlocate, ?_⟩, hslash⟩
  exact tree.get?_insert_self _ (isAnchor_eq_false hfree)

/-- A file stays as it is when another one in its directory is written. -/
theorem Stored.write_of_ne {written : FileTree} {directory name other : String}
    {bytes : ByteArray} (h : tree.Stored (Path.join directory name) contents)
    (hname : Path.IsFileName name) (hother : Path.IsFileName other) (hne : other ≠ name)
    (hwrite : tree.write (Path.join directory other) bytes = .ok written) :
    written.Stored (Path.join directory name) contents := by
  obtain ⟨⟨place, hlocate, hentry⟩, hslash⟩ := h
  obtain ⟨place', hlocate', hfree, -, rfl⟩ := write_eq_ok hwrite
  obtain ⟨holder, rfl⟩ := exists_locate_join hname hlocate
  obtain ⟨holder', rfl⟩ := exists_locate_join hother hlocate'
  refine ⟨⟨name :: holder, (keepsDirectories_insert hfree _).locate hlocate, ?_⟩, hslash⟩
  rw [tree.get?_insert_of_ne _ ?_]
  · exact hentry
  · intro hsame
    exact hne (List.cons.inj hsame).1.symm

end FileTree

end TurtleScript
