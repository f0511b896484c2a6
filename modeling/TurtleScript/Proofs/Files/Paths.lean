import TurtleScript.Files.Path

/-!
Paths of files in a directory. Whatever the text of a directory, a file name joined to it adds one
segment at the end and leaves the beginning as it is, so two names in one directory never make
paths that lead to one place.
-/

namespace TurtleScript

namespace Path

/-- A name that a file can have in a directory. -/
structure IsFileName (name : String) : Prop where
  nonempty : name ≠ ""
  no_slash : '/' ∉ name.toList
  not_here : name ≠ "."
  not_above : name ≠ ".."

theorem splitSlashes_ne_nil (cs : List Char) : splitSlashes cs ≠ [] := by
  cases cs with
  | nil => simp [splitSlashes]
  | cons c cs =>
      unfold splitSlashes
      split
      · simp
      · split <;> simp

theorem splitSlashes_of_no_slash {cs : List Char} (h : '/' ∉ cs) : splitSlashes cs = [cs] := by
  induction cs with
  | nil => rfl
  | cons c cs ih =>
      have hc : c ≠ '/' := by
        rintro rfl
        simp at h
      have hcs : '/' ∉ cs := fun hmem => h (List.mem_cons_of_mem _ hmem)
      simp [splitSlashes, hc, ih hcs]

/-- A slash divides the stretches before it from those after it. -/
theorem splitSlashes_append_slash (cs rest : List Char) :
    splitSlashes (cs ++ '/' :: rest) = splitSlashes cs ++ splitSlashes rest := by
  induction cs with
  | nil => simp [splitSlashes]
  | cons c cs ih =>
      by_cases hc : c = '/'
      · simp [splitSlashes, hc, ih]
      · cases hsplit : splitSlashes cs with
        | nil => exact absurd hsplit (splitSlashes_ne_nil cs)
        | cons first others => simp [splitSlashes, hc, ih, hsplit]

theorem no_slash_of_mem_splitSlashes {cs stretch : List Char} (h : stretch ∈ splitSlashes cs) :
    '/' ∉ stretch := by
  induction cs generalizing stretch with
  | nil =>
      simp only [splitSlashes, List.mem_singleton] at h
      simp [h]
  | cons c cs ih =>
      by_cases hc : c = '/'
      · simp only [splitSlashes, hc, if_true, List.mem_cons] at h
        rcases h with rfl | hrest
        · simp
        · exact ih hrest
      · cases hsplit : splitSlashes cs with
        | nil => exact absurd hsplit (splitSlashes_ne_nil cs)
        | cons first others =>
            simp only [splitSlashes, hc, if_false, hsplit, List.mem_cons] at h
            rcases h with rfl | hrest
            · have hfirst : '/' ∉ first := ih (by simp [hsplit])
              simp [hfirst, Ne.symm hc]
            · exact ih (by simp [hsplit, hrest])

theorem no_slash_of_mem_segments {path segment : String} (h : segment ∈ segments path) :
    '/' ∉ segment.toList := by
  obtain ⟨stretch, hstretch, rfl⟩ := List.mem_map.mp h
  rw [String.toList_ofList]
  exact no_slash_of_mem_splitSlashes (List.mem_filter.mp hstretch).1

variable {directory name : String}

theorem IsFileName.toList_ne_nil (h : IsFileName name) : name.toList ≠ [] :=
  fun hnil => h.nonempty (String.toList_eq_nil_iff.mp hnil)

theorem IsFileName.not_absolute (h : IsFileName name) : isAbsolute name = false := by
  unfold isAbsolute
  cases hchars : name.toList with
  | nil => rfl
  | cons c cs =>
      have hc : c ≠ '/' := by
        rintro rfl
        exact h.no_slash (by simp [hchars])
      simp [hc]

/-- A path into a directory is the text of the directory up to a slash, and then the name. -/
theorem toList_join (directory : String) (h : IsFileName name) :
    (directory = "" ∧ join directory name = name) ∨
      ∃ front, (join directory name).toList = front ++ '/' :: name.toList ∧
        (directory.toList = front ∨ directory.toList = front ++ ['/']) := by
  unfold join
  rw [if_neg (by simp [h.not_absolute])]
  by_cases hempty : directory = ""
  · exact Or.inl ⟨hempty, by simp [hempty]⟩
  · refine Or.inr ?_
    cases hslash : endsInSlash directory with
    | true =>
        have hlast : directory.toList.getLast? = some '/' := by
          simpa [endsInSlash] using hslash
        obtain ⟨front, hfront⟩ := List.getLast?_eq_some_iff.mp hlast
        refine ⟨front, ?_, Or.inr hfront⟩
        simp [hfront]
    | false =>
        refine ⟨directory.toList, ?_, Or.inl rfl⟩
        simp [hempty]

theorem segments_of_append_slash {path : String} {front : List Char} (h : IsFileName name)
    (hpath : path.toList = front ++ '/' :: name.toList) :
    segments path =
      ((splitSlashes front).filter fun s => !s.isEmpty).map String.ofList ++ [name] := by
  unfold segments
  rw [hpath, splitSlashes_append_slash, splitSlashes_of_no_slash h.no_slash, List.filter_append,
    List.map_append]
  simp [h.toList_ne_nil]

/-- A name joined to a directory is one further segment. -/
theorem segments_join (h : IsFileName name) :
    segments (join directory name) = segments directory ++ [name] := by
  rcases toList_join directory h with ⟨rfl, hjoin⟩ | ⟨front, hjoin, hdirectory⟩
  · rw [hjoin, segments, splitSlashes_of_no_slash h.no_slash]
    simp [h.toList_ne_nil, segments, splitSlashes]
  · rw [segments_of_append_slash h hjoin]
    rcases hdirectory with hsame | hslash
    · rw [segments, hsame]
    · rw [segments, hslash, splitSlashes_append_slash]
      simp [splitSlashes]

theorem steps_join (h : IsFileName name) : steps (join directory name) = steps directory ++ [name] := by
  rw [steps, segments_join h, List.filter_append]
  simp [steps, h.not_here]

/-- The stem of a file name has no slash in it, since no segment has. -/
theorem no_slash_of_stem? {path stem : String} (h : stem? path = some stem) :
    '/' ∉ stem.toList := by
  obtain ⟨file, hfile, rfl⟩ := Option.map_eq_some_iff.mp h
  have hsegment : file ∈ segments path := by
    have hlast : (steps path).getLast? = some file := (Option.filter_eq_some_iff.mp hfile).1
    exact (List.mem_filter.mp (List.mem_of_getLast? hlast)).1
  have hslash := no_slash_of_mem_segments hsegment
  unfold splitName
  simp only
  split
  · rename_i dot c cs hdrop
    rw [String.toList_ofList]
    intro hmem
    apply hslash
    have hreversed : '/' ∈ file.toList.reverse := by
      apply (List.dropWhile_sublist (fun c => c != '.')).subset
      rw [hdrop]
      exact List.mem_cons_of_mem _ (List.mem_reverse.mp hmem)
    exact List.mem_reverse.mp hreversed
  · exact hslash

/-- What has an extension has a stem. -/
theorem exists_stem?_of_extension? {path extension : String}
    (h : extension? path = some extension) : ∃ stem, stem? path = some stem := by
  obtain ⟨file, hfile, -⟩ := Option.bind_eq_some_iff.mp h
  exact ⟨(splitName file).1, by simp [stem?, hfile]⟩

end Path

end TurtleScript
