import TurtleScript.Proofs.Files.Effects

/-!
The footprint of effects on a file tree. Whatever is worked off, and wherever it fails, a place is
left as it was, or a directory is made where nothing was, or a file is written where no directory
was. So nothing is ever removed, directories appear only on the way to a path that one was to be
made at, and files change only at the places of paths that were to be written.
-/

namespace TurtleScript

namespace Path

theorem ne_empty_of_mem_segments {path segment : String} (h : segment ∈ segments path) :
    segment ≠ "" := by
  obtain ⟨stretch, hstretch, rfl⟩ := List.mem_map.mp h
  have hne : stretch ≠ [] := by simpa using (List.mem_filter.mp hstretch).2
  simpa using hne

theorem segments_append_slash (front rest : String) :
    segments (front ++ "/" ++ rest) = segments front ++ segments rest := by
  have hlist : (front ++ "/" ++ rest).toList = front.toList ++ '/' :: rest.toList := by simp
  simp [segments, hlist, splitSlashes_append_slash]

theorem segments_of_name {name : String} (hne : name ≠ "") (hslash : '/' ∉ name.toList) :
    segments name = [name] := by
  have hlist : name.toList ≠ [] := fun hnil => hne (String.toList_eq_nil_iff.mp hnil)
  simp [segments, splitSlashes_of_no_slash hslash, hlist]

/-- Segments that are put together with slashes can be taken apart again. -/
theorem segments_intercalate {names : List String} (hne : ∀ name ∈ names, name ≠ "")
    (hslash : ∀ name ∈ names, '/' ∉ name.toList) : segments ("/".intercalate names) = names := by
  induction names with
  | nil => rfl
  | cons name rest ih =>
      have hname := segments_of_name (hne name (by simp)) (hslash name (by simp))
      cases rest with
      | nil => rw [String.intercalate_singleton, hname]
      | cons second rest =>
          rw [String.intercalate_cons_cons, segments_append_slash, hname,
            ih (fun n hn => hne n (by simp [hn])) (fun n hn => hslash n (by simp [hn]))]
          rfl

theorem isAbsolute_intercalate {names : List String} (hne : ∀ name ∈ names, name ≠ "")
    (hslash : ∀ name ∈ names, '/' ∉ name.toList) : isAbsolute ("/".intercalate names) = false := by
  cases names with
  | nil => rfl
  | cons name rest =>
      cases hchars : name.toList with
      | nil => exact absurd (String.toList_eq_nil_iff.mp hchars) (hne name (by simp))
      | cons c cs =>
          have hc : c ≠ '/' := by
            rintro rfl
            exact hslash name (by simp) (by simp [hchars])
          cases rest with
          | nil => simp [isAbsolute, String.intercalate_singleton, hchars, hc]
          | cons second rest => simp [isAbsolute, String.intercalate_cons_cons, hchars, hc]

end Path

namespace Location

/-- Where the segments of a path are followed from, if it is followed at all. -/
def base (path : String) : Location :=
  if Path.isAbsolute path then root else start

theorem eq_base_of_origin {path : String} {place : Location} (h : origin path = .ok place) :
    place = base path := by
  unfold origin at h
  split at h
  · cases h
  · split at h
    · cases h
    · split at h
      · cases h
      · exact (Except.ok.inj h).symm

end Location

namespace FileTree

variable {tree middle later : FileTree} {path : String} {place : Location}

/-- The place that the first steps of a path lead to: its own, or that of a directory on the way. -/
def OnTheWay (tree : FileTree) (path : String) (place : Location) : Prop :=
  ∃ n, tree.follow (Location.base path) ((Path.steps path).take n) = .ok place

/-- A `.` leads nowhere else. -/
theorem follow_steps {segments : List String} {next : Location}
    (h : tree.follow place segments = .ok next) :
    tree.follow place (segments.filter fun s => s != ".") = .ok next := by
  induction segments generalizing place with
  | nil => exact h
  | cons segment rest ih =>
      obtain ⟨second, hstep, hrest⟩ := bind_eq_ok_iff.mp h
      by_cases hhere : segment = "."
      · obtain ⟨-, -, hsecond⟩ := step_eq_ok_iff.mp hstep
        have hsame : place = second := by simpa [Location.follow, hhere] using hsecond
        rw [← hsame] at hrest
        simpa [hhere] using ih hrest
      · have hkept : (segment :: rest).filter (fun s => s != ".") =
            segment :: rest.filter fun s => s != "." := by simp [hhere]
        rw [hkept]
        exact bind_eq_ok_iff.mpr ⟨second, hstep, ih hrest⟩

/-- The paths along which directories are made lead to places on the way. -/
theorem onTheWay_of_mem_ways {way : String} (hway : way ∈ Path.ways path)
    (h : tree.locate way = .ok place) : tree.OnTheWay path place := by
  obtain ⟨origin, horigin, hfollow⟩ := bind_eq_ok_iff.mp h
  rw [Location.eq_base_of_origin horigin] at hfollow
  unfold Path.ways at hway
  split at hway
  · cases hway
  · rcases List.mem_cons.mp hway with rfl | hbetween
    · refine ⟨(Path.steps way).length, ?_⟩
      rw [List.take_length]
      exact follow_steps hfollow
    · obtain ⟨n, -, rfl⟩ := List.mem_map.mp hbetween
      have hsegment : ∀ name ∈ (Path.steps path).take (n + 1), name ∈ Path.segments path :=
        fun name hname => (List.mem_filter.mp (List.mem_of_mem_take hname)).1
      have hne : ∀ name ∈ (Path.steps path).take (n + 1), name ≠ "" :=
        fun name hname => Path.ne_empty_of_mem_segments (hsegment name hname)
      have hslash : ∀ name ∈ (Path.steps path).take (n + 1), '/' ∉ name.toList :=
        fun name hname => Path.no_slash_of_mem_segments (hsegment name hname)
      have hnames := Path.segments_intercalate hne hslash
      refine ⟨n + 1, ?_⟩
      -- The way begins where the path does, and has its first steps for segments.
      cases habsolute : Path.isAbsolute path with
      | true =>
          simp only [habsolute, if_true] at hfollow
          have hroot := Path.segments_append_slash ""
            ("/".intercalate ((Path.steps path).take (n + 1)))
          have hstart : Path.isAbsolute
              ("/" ++ "/".intercalate ((Path.steps path).take (n + 1))) = true := by
            simp [Path.isAbsolute]
          rw [String.empty_append, hnames] at hroot
          rw [hroot, Location.base, hstart, if_pos rfl] at hfollow
          rw [Location.base, habsolute, if_pos rfl]
          exact hfollow
      | false =>
          simp only [habsolute, Bool.false_eq_true, if_false, String.empty_append] at hfollow
          rw [hnames, Location.base, Path.isAbsolute_intercalate hne hslash] at hfollow
          rw [Location.base, habsolute]
          exact hfollow

theorem OnTheWay.of_keepsDirectories (h : tree.OnTheWay path place) (hkeeps : tree.KeepsDirectories later) :
    later.OnTheWay path place := by
  obtain ⟨n, hfollow⟩ := h
  exact ⟨n, hkeeps.follow hfollow⟩

/-- What can become of a place: nothing new, a directory where nothing was, or a file where no
directory was. -/
inductive Fate (tree later : FileTree) (made written : Location → Prop) (place : Location) : Prop
  | kept (h : later.get? place = tree.get? place)
  | made (hfree : tree.get? place = none) (hnow : later.get? place = some .directory)
      (h : made place)
  | written {bytes : ByteArray} (hfree : tree.get? place ≠ some .directory)
      (hnow : later.get? place = some (.file bytes)) (h : written place)

/-- One tree differs from another by directories made and files written at some places. -/
def ChangesOnly (tree later : FileTree) (made written : Location → Prop) : Prop :=
  ∀ place, Fate tree later made written place

section

variable {made written made' written' : Location → Prop}

theorem ChangesOnly.refl : ChangesOnly tree tree made written :=
  fun _ => .kept rfl

theorem ChangesOnly.mono (h : ChangesOnly tree later made written)
    (hmade : ∀ place, made place → made' place)
    (hwritten : ∀ place, written place → written' place) :
    ChangesOnly tree later made' written' := by
  intro place
  cases h place with
  | kept hsame => exact .kept hsame
  | made hfree hnow hplace => exact .made hfree hnow (hmade place hplace)
  | written hfree hnow hplace => exact .written hfree hnow (hwritten place hplace)

theorem ChangesOnly.keepsDirectories (h : ChangesOnly tree later made written) :
    tree.KeepsDirectories later := by
  intro place hdirectory
  cases h place with
  | kept hsame => exact hsame.trans hdirectory
  | made hfree _ _ =>
      rw [hfree] at hdirectory
      cases hdirectory
  | written hfree _ _ => exact absurd hdirectory hfree

/-- A file stays a file. -/
theorem ChangesOnly.file_of_file (h : ChangesOnly tree later made written) {bytes : ByteArray}
    (hfile : tree.get? place = some (.file bytes)) :
    ∃ now, later.get? place = some (.file now) := by
  cases h place with
  | kept hsame => exact ⟨bytes, hsame.trans hfile⟩
  | made hfree _ _ =>
      rw [hfree] at hfile
      cases hfile
  | written _ hnow _ => exact ⟨_, hnow⟩

/-- A directory that was not there before has been made where nothing was. -/
theorem ChangesOnly.made_of_new (h : ChangesOnly tree later made written)
    (hnow : later.get? place = some .directory) (hbefore : tree.get? place ≠ some .directory) :
    tree.get? place = none ∧ made place := by
  cases h place with
  | kept hsame => exact absurd (hsame ▸ hnow) hbefore
  | made hfree _ hplace => exact ⟨hfree, hplace⟩
  | written _ hfile _ =>
      rw [hfile] at hnow
      cases hnow

/-- A file that is new or has other contents has been written. -/
theorem ChangesOnly.written_of_changed (h : ChangesOnly tree later made written)
    {bytes : ByteArray} (hnow : later.get? place = some (.file bytes))
    (hbefore : tree.get? place ≠ some (.file bytes)) : written place := by
  cases h place with
  | kept hsame => exact absurd (hsame ▸ hnow) hbefore
  | made _ hdirectory _ =>
      rw [hdirectory] at hnow
      cases hnow
  | written _ _ hplace => exact hplace

theorem ChangesOnly.trans (h : ChangesOnly tree middle made written)
    (h' : ChangesOnly middle later made written) : ChangesOnly tree later made written := by
  intro place
  cases h' place with
  | kept hsame =>
      cases h place with
      | kept hsame' => exact .kept (hsame.trans hsame')
      | made hfree hnow hplace => exact .made hfree (hsame.trans hnow) hplace
      | written hfree hnow hplace => exact .written hfree (hsame.trans hnow) hplace
  | made hfree hnow hplace =>
      cases h place with
      | kept hsame' => exact .made (hsame' ▸ hfree) hnow hplace
      | made _ hnow' _ =>
          rw [hnow'] at hfree
          cases hfree
      | written _ hnow' _ =>
          rw [hnow'] at hfree
          cases hfree
  | written hfree hnow hplace =>
      -- A directory would have been kept up to the write.
      refine .written ?_ hnow hplace
      intro hdirectory
      exact hfree (h.keepsDirectories place hdirectory)

end

theorem makeDirectory_eq_ok {made : FileTree} (h : tree.makeDirectory path = .ok made) :
    ∃ place, tree.locate path = .ok place ∧ tree.get? place = none ∧
      made = tree.insert place .directory := by
  obtain ⟨place, hlocate, hmade⟩ := bind_eq_ok_iff.mp h
  refine ⟨place, hlocate, ?_⟩
  cases hentry : tree.get? place with
  | some entry =>
      rw [hentry] at hmade
      cases hmade
  | none =>
      rw [hentry] at hmade
      exact ⟨rfl, (Except.ok.inj hmade).symm⟩

/-- Making one directory makes it at the place of its path. -/
theorem changesOnly_makeDirectory {full : FileTree} (h : tree.makeDirectory path = .ok full) :
    ChangesOnly tree full (fun place => full.locate path = .ok place) fun _ => False := by
  obtain ⟨target, hlocate, hfree, rfl⟩ := makeDirectory_eq_ok h
  have hnot : tree.get? target ≠ some .directory := by
    rw [hfree]
    nofun
  intro place
  by_cases hplace : place = target
  · rw [hplace]
    exact .made hfree (tree.get?_insert_self _ (isAnchor_eq_false hnot))
      ((keepsDirectories_insert hnot _).locate hlocate)
  · exact .kept (tree.get?_insert_of_ne _ hplace)

/-- Directories are made along the paths of a list and nowhere else, also where it fails. -/
theorem changesOnly_makeAlong (tree : FileTree) (paths : List String) :
    ChangesOnly tree (tree.makeAlong paths).1
      (fun place => ∃ path ∈ paths, (tree.makeAlong paths).1.locate path = .ok place)
      fun _ => False := by
  induction paths with
  | nil => exact .refl
  | cons path outer ih =>
      unfold makeAlong
      split
      · rename_i made hmade
        refine (changesOnly_makeDirectory hmade).mono ?_ fun _ => id
        intro place hplace
        exact ⟨path, by simp, hplace⟩
      · -- The directory that holds it is made first, and then it is tried again.
        have houter : ChangesOnly tree (tree.makeAlong outer).1
            (fun place => ∃ p ∈ path :: outer, (tree.makeAlong outer).1.locate p = .ok place)
            fun _ => False := by
          refine ih.mono ?_ fun _ => id
          rintro place ⟨p, hp, hplace⟩
          exact ⟨p, List.mem_cons_of_mem _ hp, hplace⟩
        cases hmade : tree.makeAlong outer with
        | mk made failure =>
            rw [hmade] at houter
            cases failure with
            | some e => exact houter
            | none =>
                cases hfull : made.makeDirectory path with
                | error e =>
                    simp only [hfull]
                    exact houter
                | ok full =>
                    have hlast := changesOnly_makeDirectory hfull
                    simp only [hfull]
                    refine ChangesOnly.trans (houter.mono ?_ fun _ => id) (hlast.mono ?_ fun _ => id)
                    · rintro place ⟨p, hp, hplace⟩
                      exact ⟨p, hp, hlast.keepsDirectories.locate hplace⟩
                    · intro place hplace
                      exact ⟨path, by simp, hplace⟩
      · exact .refl

theorem changesOnly_makeDirectories (tree : FileTree) (path : String) :
    ChangesOnly tree (tree.makeDirectories path).1 ((tree.makeDirectories path).1.OnTheWay path)
      fun _ => False := by
  refine (changesOnly_makeAlong tree (Path.ways path)).mono ?_ fun _ => id
  rintro place ⟨way, hway, hplace⟩
  exact onTheWay_of_mem_ways hway hplace

/-- A write changes the place of its path. -/
theorem changesOnly_write {contents : ByteArray} {full : FileTree}
    (h : tree.write path contents = .ok full) :
    ChangesOnly tree full (fun _ => False) fun place => full.locate path = .ok place := by
  obtain ⟨target, hlocate, hfree, -, rfl⟩ := write_eq_ok h
  intro place
  by_cases hplace : place = target
  · rw [hplace]
    exact .written hfree (tree.get?_insert_self _ (isAnchor_eq_false hfree))
      ((keepsDirectories_insert hfree _).locate hlocate)
  · exact .kept (tree.get?_insert_of_ne _ hplace)

end FileTree

namespace Effect

open FileTree (ChangesOnly OnTheWay)

variable {tree middle later : FileTree} {effects before after : List Effect} {place : Location}

/-- The places at which effects may make directories. -/
def Makes (effects : List Effect) (tree : FileTree) (place : Location) : Prop :=
  ∃ path, .makeDirectories path ∈ effects ∧ tree.OnTheWay path place

/-- The places at which effects may write files. -/
def Writes (effects : List Effect) (tree : FileTree) (place : Location) : Prop :=
  ∃ path contents, .write path contents ∈ effects ∧ tree.locate path = .ok place

/-- Effects that begin with one change what it changes and what the rest changes after it. -/
theorem changesOnly_cons {effect : Effect} {rest : List Effect}
    (h : ChangesOnly tree middle (Makes [effect] middle) (Writes [effect] middle))
    (hrest : ChangesOnly middle later (Makes rest later) (Writes rest later)) :
    ChangesOnly tree later (Makes (effect :: rest) later) (Writes (effect :: rest) later) := by
  have hkeeps := hrest.keepsDirectories
  refine ChangesOnly.trans (h.mono ?_ ?_) (hrest.mono ?_ ?_)
  · rintro place ⟨path, hpath, hplace⟩
    exact ⟨path, List.mem_cons.mpr (Or.inl (List.mem_singleton.mp hpath)), hplace.of_keepsDirectories hkeeps⟩
  · rintro place ⟨path, contents, hpath, hplace⟩
    exact ⟨path, contents, List.mem_cons.mpr (Or.inl (List.mem_singleton.mp hpath)),
      hkeeps.locate hplace⟩
  · rintro place ⟨path, hpath, hplace⟩
    exact ⟨path, List.mem_cons_of_mem _ hpath, hplace⟩
  · rintro place ⟨path, contents, hpath, hplace⟩
    exact ⟨path, contents, List.mem_cons_of_mem _ hpath, hplace⟩

theorem changesOnly_write {path contents : String} {written : FileTree}
    (h : tree.write path contents.toUTF8 = .ok written) :
    ChangesOnly tree written (Makes [.write path contents] written)
      (Writes [.write path contents] written) := by
  refine (FileTree.changesOnly_write h).mono nofun ?_
  intro place hplace
  exact ⟨path, contents, List.mem_singleton.mpr rfl, hplace⟩

theorem changesOnly_makeDirectories (tree : FileTree) (path : String) :
    ChangesOnly tree (tree.makeDirectories path).1
      (Makes [.makeDirectories path] (tree.makeDirectories path).1)
      (Writes [.makeDirectories path] (tree.makeDirectories path).1) := by
  refine (FileTree.changesOnly_makeDirectories tree path).mono ?_ nofun
  intro place hplace
  exact ⟨path, List.mem_singleton.mpr rfl, hplace⟩

/-- Working off effects changes only what they are about, whether or not one of them fails. -/
theorem changesOnly_perform (tree : FileTree) (effects : List Effect) :
    ChangesOnly tree (perform tree effects).tree (Makes effects (perform tree effects).tree)
      (Writes effects (perform tree effects).tree) := by
  induction effects generalizing tree with
  | nil => exact .refl
  | cons effect rest ih =>
      cases effect with
      | log record => exact changesOnly_cons .refl (ih tree)
      | write path contents =>
          unfold perform
          cases hwrite : tree.write path contents.toUTF8 with
          | error e => exact .refl
          | ok written => exact changesOnly_cons (changesOnly_write hwrite) (ih written)
      | makeDirectories path =>
          have hmake := changesOnly_makeDirectories tree path
          unfold perform
          cases hresult : tree.makeDirectories path with
          | mk made failure =>
              rw [hresult] at hmake
              cases failure with
              | none => exact changesOnly_cons hmake (ih made)
              | some e => exact changesOnly_cons hmake .refl

/-- After effects that succeed, the others are worked off on what they leave. -/
theorem perform_append_of_doesAll (h : DoesAll before tree middle) (after : List Effect) :
    (perform tree (before ++ after)).tree = (perform middle after).tree ∧
      (perform tree (before ++ after)).failure = (perform middle after).failure := by
  induction h with
  | nil tree => exact ⟨rfl, rfl⟩
  | cons hfirst _ ih =>
      cases hfirst with
      | log record tree => exact ih
      | write hwrite =>
          rw [List.cons_append, perform, hwrite]
          exact ih
      | makeDirectories hmake =>
          rw [List.cons_append, perform, hmake]
          exact ih

end Effect

end TurtleScript
