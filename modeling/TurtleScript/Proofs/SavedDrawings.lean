import Mathlib.Data.List.DropRight
import Mathlib.Data.List.Nodup
import TurtleScript.Proofs.Artifacts

/-!
Saved drawings never take each other's place. Their common name may be any text: it may be empty, end
in a number, or lead into another directory, and an absolute one leaves the output directory out of it.
Whatever stands in front of its last slash belongs to the directory all drawings go to, and what comes
after it makes a file name with the number of the drawing, so the drawings stand side by side in one
directory under different names.
-/

namespace TurtleScript

namespace Path

/-- The text in front of the name of a file: all up to the last slash. -/
def directoryPart (path : String) : String :=
  String.ofList (path.toList.rdropWhile fun c => c != '/')

variable {directory front file : String}

theorem isAbsolute_append (hfront : front ≠ "") : isAbsolute (front ++ file) = isAbsolute front := by
  cases hchars : front.toList with
  | nil => exact absurd (String.toList_eq_nil_iff.mp hchars) hfront
  | cons c cs => simp [isAbsolute, hchars]

theorem isAbsolute_of_no_slash (h : '/' ∉ file.toList) : isAbsolute file = false := by
  rw [isAbsolute, beq_eq_false_iff_ne]
  intro hhead
  exact h (List.mem_of_head? hhead)

theorem ne_empty_of_endsInSlash (h : endsInSlash front = true) : front ≠ "" := by
  rintro rfl
  exact absurd h (by decide)

theorem join_of_endsInSlash (h : endsInSlash front = true) (hfile : isAbsolute file = false) :
    join front file = front ++ file := by
  simp [join, hfile, h]

/-- What leads on from a directory may be joined to it first. -/
theorem join_append (hfront : endsInSlash front = true) :
    join directory (front ++ file) = join directory front ++ file := by
  unfold join
  rw [isAbsolute_append (ne_empty_of_endsInSlash hfront)]
  split
  · rfl
  · split <;> simp only [String.append_assoc]

theorem endsInSlash_append (hfront : endsInSlash front = true) (text : String) :
    endsInSlash (text ++ front) = true := by
  have hlast : front.toList.getLast? = some '/' := by simpa [endsInSlash] using hfront
  simp [endsInSlash, List.getLast?_append, hlast]

theorem endsInSlash_join (hfront : endsInSlash front = true) :
    endsInSlash (join directory front) = true := by
  unfold join
  split
  · exact hfront
  · split
    · exact endsInSlash_append hfront directory
    · exact endsInSlash_append hfront (directory ++ "/")

/-- Every name is a way into a directory, which may be missing, and a name without slashes. -/
theorem exists_front_append (name : String) :
    ∃ front base, name = front ++ base ∧ '/' ∉ base.toList ∧
      (front = "" ∨ endsInSlash front = true) := by
  let p : Char → Bool := fun c => c != '/'
  refine ⟨directoryPart name, String.ofList (name.toList.rtakeWhile p), ?_, ?_, ?_⟩
  · rw [directoryPart, ← String.ofList_append, List.rdropWhile_append_rtakeWhile,
      String.ofList_toList]
  · rw [String.toList_ofList]
    intro hmem
    exact absurd (List.mem_rtakeWhile_imp hmem) (by decide)
  · by_cases hfront : name.toList.rdropWhile p = []
    · left
      exact congrArg String.ofList hfront
    · right
      have hlast := List.rdropWhile_last_not p name.toList hfront
      have hslash : (name.toList.rdropWhile p).getLast hfront = '/' := by simpa [p] using hlast
      rw [endsInSlash, directoryPart, String.toList_ofList, List.getLast?_eq_some_getLast hfront,
        hslash]
      rfl

theorem directoryPart_append (hfront : front = "" ∨ endsInSlash front = true)
    (hfile : '/' ∉ file.toList) : directoryPart (front ++ file) = front := by
  have hname : ∀ c ∈ file.toList.reverse, (c != '/') = true := by
    intro c hc
    rw [bne_iff_ne]
    rintro rfl
    exact hfile (List.mem_reverse.mp hc)
  have hself : front.toList.rdropWhile (fun c => c != '/') = front.toList := by
    rw [List.rdropWhile_eq_self_iff]
    intro hne
    rcases hfront with rfl | hslash
    · exact absurd rfl hne
    · have hlast : front.toList.getLast? = some '/' := by simpa [endsInSlash] using hslash
      rw [List.getLast?_eq_some_getLast hne, Option.some.injEq] at hlast
      simp [hlast]
  rw [directoryPart, String.toList_append, List.rdropWhile, List.reverse_append,
    List.dropWhile_append_of_pos hname]
  change String.ofList (front.toList.rdropWhile _) = front
  rw [hself, String.ofList_toList]

/-- Files in one directory have one directory part. -/
theorem directoryPart_join (hfile : '/' ∉ file.toList) :
    directoryPart (join directory file) =
      if directory.isEmpty || endsInSlash directory then directory else directory ++ "/" := by
  unfold join
  rw [isAbsolute_of_no_slash hfile]
  simp only [Bool.false_eq_true, if_false]
  split
  · rename_i hopen
    exact directoryPart_append (by simpa using hopen) hfile
  · exact directoryPart_append (Or.inr (endsInSlash_append (by decide) directory)) hfile

end Path

/-- What effects give: a value, or the report of the one that failed. -/
def Effect.Outcome.giving {α : Type} (outcome : Effect.Outcome) (value : α) : Except String α :=
  match outcome.failure with
  | none => .ok value
  | some report => .error report

theorem Effect.Outcome.giving_eq_ok_iff {α : Type} {outcome : Effect.Outcome} {value result : α} :
    outcome.giving value = .ok result ↔ outcome.failure = none ∧ value = result := by
  unfold giving
  split
  · rename_i hnone
    simp [hnone]
  · rename_i report hsome
    simp [hsome]

namespace Artifact

theorem drawingStem_append (front base : String) (n : Nat) :
    drawingStem (front ++ base) n = front ++ drawingStem base n := by
  unfold drawingStem
  split
  · rfl
  · simp only [String.append_assoc]

/-- All drawings of a name go into one directory, under a name without slashes. -/
theorem exists_folder (directory name : String) :
    ∃ folder base, '/' ∉ base.toList ∧
      ∀ n, drawingPath directory name n = drawingPath folder base n := by
  obtain ⟨front, base, rfl, hbase, hfront⟩ := Path.exists_front_append name
  rcases hfront with rfl | hslash
  · exact ⟨directory, base, hbase, fun n => by rw [String.empty_append]⟩
  · refine ⟨Path.join directory front, base, hbase, ?_⟩
    intro n
    have hfile := Path.isAbsolute_of_no_slash (isFileName_svg (no_slash_drawingStem hbase n)).no_slash
    rw [drawingPath_eq, drawingPath_eq, drawingStem_append, String.append_assoc,
      Path.join_append hslash, Path.join_of_endsInSlash (Path.endsInSlash_join hslash) hfile]

/-- Two drawings of a name have different paths, in one directory. -/
theorem drawingPath_apart (directory name : String) {m n : Nat} (hne : m ≠ n) :
    Path.steps (drawingPath directory name m) ≠ Path.steps (drawingPath directory name n) ∧
      Path.directoryPart (drawingPath directory name m) =
        Path.directoryPart (drawingPath directory name n) := by
  obtain ⟨folder, base, hbase, hpath⟩ := exists_folder directory name
  have hfile (k : Nat) := isFileName_svg (no_slash_drawingStem hbase k)
  rw [hpath, hpath, drawingPath_eq, drawingPath_eq]
  constructor
  · rw [Path.steps_join (hfile m), Path.steps_join (hfile n)]
    intro hsteps
    have hnames := List.singleton_inj.mp (List.append_cancel_left hsteps)
    exact hne (drawingStem_injective ((String.append_left_inj _).mp hnames))
  · rw [Path.directoryPart_join (hfile m).no_slash, Path.directoryPart_join (hfile n).no_slash]

theorem drawingPath_injective (directory name : String) :
    Function.Injective (drawingPath directory name) := by
  intro m n hsame
  by_contra hne
  exact (drawingPath_apart directory name hne).1 (congrArg Path.steps hsame)

theorem drawings_congr {directory name folder base : String}
    (h : ∀ n, drawingPath directory name n = drawingPath folder base n) (n : Nat)
    (pictures : List Picture) :
    drawings directory name n pictures = drawings folder base n pictures := by
  induction pictures generalizing n with
  | nil => rfl
  | cons picture rest ih => rw [drawings, drawings, h, ih]

/-- The paths of drawings are numbered in their order. -/
theorem map_fst_drawings (directory name : String) (n : Nat) (pictures : List Picture) :
    (drawings directory name n pictures).map Prod.fst =
      (List.range' n pictures.length).map (drawingPath directory name) := by
  induction pictures generalizing n with
  | nil => rfl
  | cons picture rest ih =>
      rw [drawings, List.map_cons, ih, List.length_cons, List.range'_succ, List.map_cons]

/-- Writes drawings one after the other. Gives the paths of all that were written, or the report of the
write that failed. -/
def writeDrawings (tree : FileTree) (written : List String) :
    List (String × Picture) → FileTree × Except String (List String)
  | [] => (tree, .ok written)
  | (path, picture) :: rest =>
      match tree.write path picture.text.toUTF8 with
      | .ok next => writeDrawings next (written ++ [path]) rest
      | .error e => (tree, .error ((Effect.write path picture.text).failure e.message))

/-- Working off the effects of saving is writing the drawings one after the other. -/
theorem writeDrawings_eq (tree : FileTree) (written : List String)
    (list : List (String × Picture)) :
    writeDrawings tree written list =
      let outcome := Effect.perform tree (list.flatMap saving)
      (outcome.tree, outcome.giving (written ++ list.map Prod.fst)) := by
  induction list generalizing tree written with
  | nil => simp [writeDrawings, Effect.perform, Effect.Outcome.giving]
  | cons drawing rest ih =>
      obtain ⟨path, picture⟩ := drawing
      have heffects : ((path, picture) :: rest).flatMap saving =
          .write path picture.text ::
            .log ⟨.info, .drawing, "saved" ++ " " ++ path⟩ :: rest.flatMap saving := rfl
      rw [heffects, writeDrawings, Effect.perform]
      cases hwrite : tree.write path picture.text.toUTF8 with
      | error e => rfl
      | ok next =>
          simp only [Effect.perform, Effect.Outcome.giving]
          rw [ih]
          simp only [Effect.Outcome.giving, List.append_assoc, List.map_cons, List.cons_append,
            List.nil_append]

/-- When all drawings of a canvas have been written, each is where it was written to. -/
theorem stored_of_writeDrawings {canvas : Canvas} {directory name : String}
    {tree later : FileTree} {paths : List String}
    (h : writeDrawings tree [] (drawingsOf canvas directory name) = (later, .ok paths)) :
    paths = (List.range canvas.saved.size).map (drawingPath directory name) ∧
      ∀ n picture, canvas.saved[n]? = some picture →
        later.Stored (drawingPath directory name n) picture.text.toUTF8 := by
  obtain ⟨folder, base, hbase, hpath⟩ := exists_folder directory name
  have hsame : drawingsOf canvas directory name = drawingsOf canvas folder base :=
    drawings_congr hpath 0 canvas.saved.toList
  rw [writeDrawings_eq, Prod.mk.injEq] at h
  obtain ⟨rfl, hpaths⟩ := h
  obtain ⟨hfailure, rfl⟩ := Effect.Outcome.giving_eq_ok_iff.mp hpaths
  constructor
  · rw [List.nil_append, drawingsOf, map_fst_drawings, Array.length_toList, List.range_eq_range']
  · intro n picture hpicture
    have hdoes := Effect.doesAll_perform hfailure
    rw [hpath]
    rw [hsame] at hdoes ⊢
    -- Nothing is written before the drawings or after them.
    have hall : Effect.DoesAll ([] ++ (saveDrawings canvas folder base ++ [])) tree
        (Effect.perform tree ((drawingsOf canvas folder base).flatMap saving)).tree := by
      rw [List.nil_append, List.append_nil]
      exact hdoes
    exact stored_drawing hbase hpicture hall nofun

/-- Saved drawings are kept apart, whatever the texts of the directory and of the name are. Drawings
with different numbers have different paths, which differ in more than spelling and have one directory
part. When writing the drawings of a canvas succeeds, it gives one path for each, no two of them alike,
and afterwards the file at each path is the drawing with the number of the path. Writing them so is what
working off the effects of saving does. -/
theorem saved_drawings_apart (directory name : String) :
    (∀ m n, m ≠ n →
      drawingPath directory name m ≠ drawingPath directory name n ∧
      Path.steps (drawingPath directory name m) ≠ Path.steps (drawingPath directory name n) ∧
      Path.directoryPart (drawingPath directory name m) =
        Path.directoryPart (drawingPath directory name n)) ∧
    ∀ (canvas : Canvas) (tree : FileTree),
      (∀ later paths,
        writeDrawings tree [] (drawingsOf canvas directory name) = (later, .ok paths) →
          paths.length = canvas.saved.size ∧ paths.Nodup ∧
          ∀ n picture, canvas.saved[n]? = some picture →
            paths[n]? = some (drawingPath directory name n) ∧
            later.read (drawingPath directory name n) = .ok picture.text.toUTF8) ∧
      let outcome := Effect.perform tree (saveDrawings canvas directory name)
      writeDrawings tree [] (drawingsOf canvas directory name) =
        (outcome.tree, outcome.giving ((drawingsOf canvas directory name).map Prod.fst)) := by
  refine ⟨?_, ?_⟩
  · intro m n hne
    exact ⟨(drawingPath_injective directory name).ne hne, drawingPath_apart directory name hne⟩
  · intro canvas tree
    refine ⟨?_, writeDrawings_eq tree [] _⟩
    intro later paths h
    obtain ⟨rfl, hstored⟩ := stored_of_writeDrawings h
    refine ⟨?_, ?_, ?_⟩
    · rw [List.length_map, List.length_range]
    · exact List.nodup_range.map (drawingPath_injective directory name)
    · intro n picture hpicture
      obtain ⟨hlt, -⟩ := Array.getElem?_eq_some_iff.mp hpicture
      refine ⟨?_, (hstored n picture hpicture).read⟩
      rw [List.getElem?_map, List.getElem?_range hlt]
      rfl

/-- A canvas with two drawings of different colours. -/
def twoColoured : Canvas :=
  Canvas.drawn .standard [.save, .background "red", .save]

/-- A start directory with two directories in it. -/
def galleryTree : FileTree :=
  ⟨[(["out"], .directory), (["art"], .directory)]⟩

/-- The name leads out of the output directory and ends as if it were numbered. -/
theorem saved_drawings_apart_gallery :
    let paths := ["out/../art/a_1.svg", "out/../art/a_1_1.svg"]
    let after := writeDrawings galleryTree [] (drawingsOf twoColoured "out" "../art/a_1")
    after.2 = .ok paths ∧ twoColoured.saved.size = 2 ∧
    (∀ (n : Nat) (picture : Picture), twoColoured.saved[n]? = some picture →
      ∃ path, paths[n]? = some path ∧ after.1.read path = .ok picture.text.toUTF8) ∧
    Path.directoryPart "out/../art/a_1.svg" = Path.directoryPart "out/../art/a_1_1.svg" := by
  intro paths after
  obtain ⟨hapart, hwriting⟩ := saved_drawings_apart "out" "../art/a_1"
  have hpaths : after.2 = .ok paths := by with_unfolding_all rfl
  obtain ⟨-, -, hfiles⟩ := (hwriting twoColoured galleryTree).1 after.1 paths (Prod.ext rfl hpaths)
  refine ⟨hpaths, rfl, ?_, (hapart 0 1 (by decide)).2.2⟩
  intro n picture hpicture
  obtain ⟨hpath, hread⟩ := hfiles n picture hpicture
  exact ⟨_, hpath, hread⟩

end Artifact

end TurtleScript
