import TurtleScript.Proofs.Artifacts
import TurtleScript.Proofs.Files.Footprint
import TurtleScript.Proofs.WithoutScript

/-!
What the drawing program touches. It works off one list of effects, in which the only directory to
be made is that for its output, and the only files to be written are the copy of the script, the
saved drawings and the final one. The footprint of the list is therefore the footprint of every run,
also of one that breaks off: what comes before the failure was done, and nothing after it.
-/

namespace TurtleScript

namespace CommandLine

namespace Draw

open Artifact (drawingPath saving standardName)
open Effect (DoesAll)

variable {request : Request} {source : Source} {tree middle : FileTree}

/-- The canvas on which a script is drawn. -/
def Request.canvas (request : Request) (source : Source) : Canvas :=
  (render (request.drawnText source) request.style request.limits).canvas

/-- Writing the drawings that were saved from the `n`th on, and then the final one. -/
def Request.drawingsFrom (request : Request) (source : Source) (n : Nat) : List Effect :=
  (Artifact.drawings request.directory standardName n
      ((request.canvas source).saved.toList.drop n)).flatMap saving ++
    Artifact.writeLogged (request.outputPath source) (request.canvas source).picture.text
      .commandLine "wrote"

/-- The path of the copy of the script, if one is asked for. -/
def Request.IsCopyPath (request : Request) (path : String) : Prop :=
  request.saveScript = true ∧ path = Script.savePath request.directory

/-- The path of one of the first drawings that were saved. -/
def Request.IsDrawingPath (request : Request) (count : Nat) (path : String) : Prop :=
  ∃ n, n < count ∧ path = drawingPath request.directory standardName n

/-- The paths of the files that come of a script: the copy of it, one for each command to save that
it gives, and the output path. -/
def Request.IsOwnPath (request : Request) (source : Source) (path : String) : Prop :=
  let commands := (Program.parse (request.drawnText source)).commands .standard request.limits
  request.IsCopyPath path ∨ request.IsDrawingPath (Snapshots.saveCount commands) path ∨
    path = request.outputPath source

/-- Before the drawings come a directory, perhaps a copy of the script, and words for the log. -/
theorem exists_preparations (request : Request) (source : Source) :
    ∃ preparations, request.effects source = preparations ++ request.drawingsFrom source 0 ∧
      (∀ path, .makeDirectories path ∈ preparations → path = request.directory) ∧
      ∀ path contents, .write path contents ∈ preparations → request.IsCopyPath path := by
  refine ⟨_, List.append_assoc _ _ _, ?_, ?_⟩
  · intro path hmem
    simpa [Artifact.saveScript, Artifact.writeLogged] using hmem
  · intro path contents hmem
    obtain ⟨hsave, hpath, -⟩ : request.saveScript = true ∧ path = Script.savePath request.directory ∧
        contents = request.drawnText source := by
      simpa [Artifact.saveScript, Artifact.writeLogged] using hmem
    exact ⟨hsave, hpath⟩

theorem exists_of_write_mem_saving {directory name path contents : String} {n : Nat}
    {pictures : List Picture}
    (h : .write path contents ∈ (Artifact.drawings directory name n pictures).flatMap saving) :
    ∃ k, k < n + pictures.length ∧ path = drawingPath directory name k := by
  induction pictures generalizing n with
  | nil => cases h
  | cons picture rest ih =>
      rw [Artifact.drawings, List.flatMap_cons] at h
      rcases List.mem_append.mp h with hfirst | hrest
      · have hpath : path = drawingPath directory name n := by
          simp only [saving, Artifact.writeLogged, List.mem_cons, Effect.write.injEq, reduceCtorEq,
            List.not_mem_nil, or_self, or_false] at hfirst
          exact hfirst.1
        exact ⟨n, by simp, hpath⟩
      · obtain ⟨k, hk, hpath⟩ := ih hrest
        exact ⟨k, by rw [List.length_cons]; omega, hpath⟩

theorem makeDirectories_not_mem_saving {directory name path : String} {n : Nat}
    {pictures : List Picture} :
    .makeDirectories path ∉ (Artifact.drawings directory name n pictures).flatMap saving := by
  intro h
  obtain ⟨drawing, -, hdrawing⟩ := List.mem_flatMap.mp h
  simp [saving, Artifact.writeLogged] at hdrawing

/-- The drawings before the `n`th are written before it. -/
theorem drawingsFrom_zero {n : Nat} (hn : n ≤ (request.canvas source).saved.size) :
    request.drawingsFrom source 0 =
      (Artifact.drawings request.directory standardName 0
        ((request.canvas source).saved.toList.take n)).flatMap saving ++
          request.drawingsFrom source n := by
  let saved := (request.canvas source).saved.toList
  have hlength : 0 + (saved.take n).length = n := by
    rw [List.length_take, Array.length_toList]
    omega
  have hsplit : Artifact.drawings request.directory standardName 0 saved =
      Artifact.drawings request.directory standardName 0 (saved.take n) ++
        Artifact.drawings request.directory standardName n (saved.drop n) := by
    conv => lhs; rw [← List.take_append_drop n saved]
    rw [Artifact.drawings_append, hlength]
  unfold Request.drawingsFrom
  rw [List.drop_zero, ← List.append_assoc, ← List.flatMap_append, ← hsplit]

/-- A canvas has one drawing for each command to save that its script gives. -/
theorem size_saved_canvas (request : Request) (source : Source) :
    (request.canvas source).saved.size = Snapshots.saveCount
      ((Program.parse (request.drawnText source)).commands .standard request.limits) := by
  rw [Request.canvas, canvas_render, Snapshots.size_saved_drawn]

/-- The only directory to be made is the one for the output. -/
theorem makes_effects {place : Location} (h : Effect.Makes (request.effects source) tree place) :
    tree.OnTheWay request.directory place := by
  obtain ⟨preparations, heffects, hmakes, -⟩ := exists_preparations request source
  obtain ⟨path, hmem, hplace⟩ := h
  rw [heffects] at hmem
  rcases List.mem_append.mp hmem with hfirst | hlast
  · rw [← hmakes path hfirst]
    exact hplace
  · rcases List.mem_append.mp hlast with hsaved | hfinal
    · exact absurd hsaved makeDirectories_not_mem_saving
    · simp [Artifact.writeLogged] at hfinal

/-- The only files to be written are the artifacts of the script. -/
theorem writes_effects {place : Location} (h : Effect.Writes (request.effects source) tree place) :
    ∃ path, request.IsOwnPath source path ∧ tree.locate path = .ok place := by
  obtain ⟨preparations, heffects, -, hwrites⟩ := exists_preparations request source
  obtain ⟨path, contents, hmem, hplace⟩ := h
  refine ⟨path, ?_, hplace⟩
  rw [heffects] at hmem
  rcases List.mem_append.mp hmem with hfirst | hlast
  · exact Or.inl (hwrites path contents hfirst)
  · rcases List.mem_append.mp hlast with hsaved | hfinal
    · obtain ⟨k, hk, hpath⟩ := exists_of_write_mem_saving hsaved
      refine Or.inr (Or.inl ⟨k, ?_, hpath⟩)
      rw [List.drop_zero, Array.length_toList, size_saved_canvas, Nat.zero_add] at hk
      exact hk
    · have hpath : path = request.outputPath source := by
        simp only [Artifact.writeLogged, List.mem_cons, Effect.write.injEq, reduceCtorEq,
          List.not_mem_nil, or_self, or_false] at hfinal
        exact hfinal.1
      exact Or.inr (Or.inr hpath)

/-- What is done before the `n`th saved drawing: the preparations and the drawings before it. -/
theorem before_drawing {n : Nat} {before : List Effect}
    (hn : n ≤ (request.canvas source).saved.size)
    (hbefore : request.effects source = before ++ request.drawingsFrom source n) :
    ∃ preparations, before = preparations ++ (Artifact.drawings request.directory standardName 0
          ((request.canvas source).saved.toList.take n)).flatMap saving ∧
      ∀ path contents, .write path contents ∈ before →
        request.IsCopyPath path ∨ request.IsDrawingPath n path := by
  obtain ⟨preparations, heffects, -, hwrites⟩ := exists_preparations request source
  rw [heffects, drawingsFrom_zero hn, ← List.append_assoc] at hbefore
  have hsame := List.append_cancel_right hbefore
  refine ⟨preparations, hsame.symm, ?_⟩
  intro path contents hmem
  rw [← hsame] at hmem
  rcases List.mem_append.mp hmem with hfirst | hsaved
  · exact Or.inl (hwrites path contents hfirst)
  · obtain ⟨k, hk, hpath⟩ := exists_of_write_mem_saving hsaved
    refine Or.inr ⟨k, ?_, hpath⟩
    rw [List.length_take] at hk
    omega

/-- Drawings that have been written are there as long as nothing else is done. -/
theorem stored_before {n k : Nat} {before : List Effect} {picture : Picture}
    (hn : n ≤ (request.canvas source).saved.size)
    (hbefore : request.effects source = before ++ request.drawingsFrom source n)
    (hdoes : DoesAll before tree middle) (hk : k < n)
    (hpicture : (request.canvas source).saved[k]? = some picture) :
    middle.Stored (drawingPath request.directory standardName k) picture.text.toUTF8 := by
  obtain ⟨preparations, rfl, -⟩ := before_drawing hn hbefore
  -- The drawings before the `n`th are all drawings of a canvas that has no others.
  let canvas := request.canvas source
  let front : Canvas := { canvas with saved := (canvas.saved.toList.take n).toArray }
  have hfront : front.saved[k]? = some picture := by
    simpa [front, hk] using hpicture
  have hdoes' : DoesAll (preparations ++
      (Artifact.saveDrawings front request.directory standardName ++ [])) tree middle := by
    rw [List.append_nil]
    exact hdoes
  exact Artifact.stored_drawing (by decide) hfront hdoes' nofun

/-- A drawing breaks off at the `n`th saved one: all that comes before it is done, which leaves a
tree, and there it cannot be written. -/
structure Request.BreaksOff (request : Request) (source : Source) (tree : FileTree) (n : Nat)
    (middle : FileTree) : Prop where
  done : ∃ before, request.effects source = before ++ request.drawingsFrom source n ∧
    DoesAll before tree middle
  fails : ∃ picture reason, (request.canvas source).saved[n]? = some picture ∧
    middle.write (drawingPath request.directory standardName n) picture.text.toUTF8 = .error reason

/-- A drawing that breaks off fails, and leaves what was done before. -/
theorem perform_of_breaksOff {n : Nat} (h : request.BreaksOff source tree n middle) :
    (Effect.perform tree (request.effects source)).tree = middle ∧
      (Effect.perform tree (request.effects source)).failure.isSome = true := by
  obtain ⟨⟨before, heffects, hdoes⟩, picture, reason, hpicture, hwrite⟩ := h
  obtain ⟨hlt, hget⟩ := List.getElem?_eq_some_iff.mp
    (show (request.canvas source).saved.toList[n]? = some picture by simpa using hpicture)
  have hfrom : ∃ rest, request.drawingsFrom source n =
      .write (drawingPath request.directory standardName n) picture.text :: rest := by
    rw [Request.drawingsFrom, ← List.getElem_cons_drop hlt, hget]
    exact ⟨_, rfl⟩
  obtain ⟨rest, hrest⟩ := hfrom
  obtain ⟨htree, hfailure⟩ := Effect.perform_append_of_doesAll hdoes (request.drawingsFrom source n)
  rw [heffects, htree, hfailure, hrest, Effect.perform, hwrite]
  exact ⟨rfl, rfl⟩

/-- A run changes what the effects of its script are about, and nothing if it has none. -/
theorem changesOnly_runOn (locked : String → Option FileError)
    (input : Except FileError ByteArray) (tree : FileTree) (words : List String)
    (threshold : Log.Threshold) (seed : Nat) :
    let left := ((runOn (.ofTree locked input) words threshold seed).run tree).2
    tree.ChangesOnly left
      (fun place => ∃ request, parse words = .ok request ∧ left.OnTheWay request.directory place)
      fun place => ∃ request source path, parse words = .ok request ∧
        request.origin.source (request.origin.contents locked input tree) seed = .ok source ∧
        request.IsOwnPath source path ∧ left.locate path = .ok place := by
  intro left
  cases hparse : parse words with
  | error refusal =>
      have hleft : left = tree := by
        simp only [left, runOn_of_refusal hparse]
        rfl
      rw [hleft]
      exact .refl
  | ok request =>
      cases hlist : request.listDemos with
      | true =>
          have hleft : left = tree := by
            simp only [left, runOn_of_listDemos hparse hlist]
            rfl
          rw [hleft]
          exact .refl
      | false =>
          cases hsource : request.origin.source
              (request.origin.contents locked input tree) seed with
          | error reason =>
              have hleft : left = tree :=
                congrArg Prod.snd (run_runOn_of_error hparse hlist hsource)
              rw [hleft]
              exact .refl
          | ok source =>
              have hleft : left = (Effect.perform tree (request.effects source)).tree :=
                congrArg Prod.snd (run_runOn_of_ok hparse hlist hsource)
              rw [hleft]
              refine (Effect.changesOnly_perform tree (request.effects source)).mono ?_ ?_
              · intro place hplace
                exact ⟨request, rfl, makes_effects hplace⟩
              · intro place hplace
                obtain ⟨path, hpath, hlocate⟩ := writes_effects hplace
                exact ⟨request, source, path, rfl, hsource, hpath, hlocate⟩

/-- Drawing touches nothing but its own files. Whatever there is in the files and the standard
input, whatever the command line asks for, and however the program ends, no directory and no file is
removed; a directory that is new has been made where nothing was, on the way to the output
directory; and a file that is new or changed is the copy of the script, if one was asked for, one of
the drawings that the script saved, or the output. If a saved drawing cannot be written, the program
fails, those before it hold what was saved, and no file has changed but they and the copy. -/
theorem touches_only_artifacts (locked : String → Option FileError)
    (input : Except FileError ByteArray) (tree : FileTree) (words : List String)
    (threshold : Log.Threshold) (seed : Nat) :
    let after := (runOn (.ofTree locked input) words threshold seed).run tree
    (∀ place, tree.get? place = some .directory → after.2.get? place = some .directory) ∧
    (∀ place bytes, tree.get? place = some (.file bytes) →
      ∃ now, after.2.get? place = some (.file now)) ∧
    (∀ place, after.2.get? place = some .directory → tree.get? place ≠ some .directory →
      tree.get? place = none ∧
        ∃ request, parse words = .ok request ∧ after.2.OnTheWay request.directory place) ∧
    (∀ place bytes, after.2.get? place = some (.file bytes) →
      tree.get? place ≠ some (.file bytes) →
      ∃ request source path, parse words = .ok request ∧
        request.origin.source (request.origin.contents locked input tree) seed = .ok source ∧
        request.IsOwnPath source path ∧ after.2.locate path = .ok place) ∧
    ∀ request source, parse words = .ok request → request.listDemos = false →
      request.origin.source (request.origin.contents locked input tree) seed = .ok source →
      ∀ n middle, request.BreaksOff source tree n middle →
        after.1.status = 1 ∧ after.2 = middle ∧
        (∀ k, k < n → ∃ earlier, (request.canvas source).saved[k]? = some earlier ∧
          middle.read (drawingPath request.directory standardName k) =
            .ok earlier.text.toUTF8) ∧
        ∀ place bytes, middle.get? place = some (.file bytes) →
          tree.get? place ≠ some (.file bytes) →
          ∃ path, (request.IsCopyPath path ∨ request.IsDrawingPath n path) ∧
            middle.locate path = .ok place := by
  intro after
  have hchanges := changesOnly_runOn locked input tree words threshold seed
  refine ⟨hchanges.keepsDirectories, fun _ _ => hchanges.file_of_file,
    fun _ => hchanges.made_of_new, fun _ _ => hchanges.written_of_changed, ?_⟩
  intro request source hparse hlist hsource n middle hbreaks
  obtain ⟨htree, hfailure⟩ := perform_of_breaksOff hbreaks
  obtain ⟨⟨before, heffects, hdoes⟩, picture, _, hpicture, _⟩ := hbreaks
  have hafter : after = _ := run_runOn_of_ok hparse hlist hsource
  have hn : n < (request.canvas source).saved.size := (Array.getElem?_eq_some_iff.mp hpicture).1
  obtain ⟨-, -, hwrites⟩ := before_drawing (Nat.le_of_lt hn) heffects
  refine ⟨?_, ?_, ?_, ?_⟩
  · rw [hafter, status_ending, hfailure]
    rfl
  · rw [hafter]
    exact htree
  · intro k hk
    have hget : (request.canvas source).saved[k]? = some (request.canvas source).saved[k] :=
      Array.getElem?_eq_getElem (Nat.lt_trans hk hn)
    exact ⟨_, hget, (stored_before (Nat.le_of_lt hn) heffects hdoes hk hget).read⟩
  · intro place bytes hnow hbefore
    have hmiddle : (Effect.perform tree before).tree = middle := by
      have happend := (Effect.perform_append_of_doesAll hdoes []).1
      rw [List.append_nil] at happend
      exact happend
    have hfirst := Effect.changesOnly_perform tree before
    rw [hmiddle] at hfirst
    obtain ⟨path, contents, hmem, hlocate⟩ := hfirst.written_of_changed hnow hbefore
    exact ⟨path, hwrites path contents hmem, hlocate⟩

/-- A start directory with a script that saves two drawings, and a directory where the second of them
would go. -/
def blockedTree : FileTree :=
  ⟨[(["shell.logocode"], .file "save save fd 1".toUTF8), (["pictures"], .directory),
    (["turtled_image_1.svg", "pictures"], .directory)]⟩

/-- The request to draw the script into a directory. -/
def shellRequest (directory : String) : Request :=
  { Request.standard with
    input := some "shell.logocode", directory := directory, saveScript := true }

def shellSource : Source :=
  ⟨"shell", "save save fd 1", []⟩

theorem breaksOff_shell :
    (shellRequest "pictures").BreaksOff shellSource blockedTree 1
      (Effect.perform blockedTree
        (((shellRequest "pictures").effects shellSource).take 6)).tree where
  done := by
    refine ⟨((shellRequest "pictures").effects shellSource).take 6, ?_,
      Effect.doesAll_perform (by decide +kernel)⟩
    have hrest : (shellRequest "pictures").drawingsFrom shellSource 1 =
        ((shellRequest "pictures").effects shellSource).drop 6 := by
      with_unfolding_all rfl
    rw [hrest, List.take_append_drop]
  fails := by
    refine ⟨(Canvas.new (shellRequest "pictures").style).picture, .isDirectory, ?_, ?_⟩
    · with_unfolding_all rfl
    · with_unfolding_all rfl

/-- In one directory the second drawing is blocked; another directory is made for the drawings. -/
theorem touches_only_artifacts_shell :
    let after := fun directory : String => (runOn (.ofTree (fun _ => none) (.ok .empty))
      ["--out-dir", directory, "--save-script", "shell.logocode"] .standard 0).run blockedTree
    let blocked := after "pictures"
    let fresh := after "album/shells"
    (blocked.1.status = 1 ∧
      blocked.2.get? ["turtled_image_1.svg", "pictures"] = some .directory ∧
      (∃ now, blocked.2.get? ["shell.logocode"] = some (.file now)) ∧
      blocked.2.read (drawingPath "pictures" standardName 0) =
        .ok (Canvas.new (shellRequest "pictures").style).picture.text.toUTF8) ∧
    fresh.1.status = 0 ∧ fresh.2.OnTheWay "album/shells" ["album"] ∧
      ∃ path, (shellRequest "album/shells").IsOwnPath shellSource path ∧
        fresh.2.locate path = .ok ["shell.svg", "shells", "album"] := by
  intro after blocked fresh
  have hsource (directory : String) : (shellRequest directory).origin.source
      ((shellRequest directory).origin.contents (fun _ => none) (.ok .empty) blockedTree) 0 =
        .ok shellSource := by with_unfolding_all rfl
  refine ⟨?_, by decide +kernel, ?_⟩
  · obtain ⟨hdirectories, hfiles, -, -, hbreaks⟩ := touches_only_artifacts (fun _ => none)
      (.ok .empty) blockedTree ["--out-dir", "pictures", "--save-script", "shell.logocode"]
      .standard 0
    have hparse : parse ["--out-dir", "pictures", "--save-script", "shell.logocode"] =
        .ok (shellRequest "pictures") := by with_unfolding_all rfl
    have hsaved : ((shellRequest "pictures").canvas shellSource).saved[0]? =
        some (Canvas.new (shellRequest "pictures").style).picture := by with_unfolding_all rfl
    obtain ⟨hstatus, hmiddle, hearlier, -⟩ := hbreaks _ _ hparse rfl (hsource "pictures") 1 _
      breaksOff_shell
    obtain ⟨earlier, hpicture, hread⟩ := hearlier 0 (by decide)
    rw [← Option.some.inj (hsaved.symm.trans hpicture)] at hread
    refine ⟨hstatus, hdirectories _ (by decide), hfiles _ "save save fd 1".toUTF8 (by decide), ?_⟩
    exact hmiddle ▸ hread
  · obtain ⟨-, -, hmade, hwritten, -⟩ := touches_only_artifacts (fun _ => none) (.ok .empty)
      blockedTree ["--out-dir", "album/shells", "--save-script", "shell.logocode"] .standard 0
    have hparse : parse ["--out-dir", "album/shells", "--save-script", "shell.logocode"] =
        .ok (shellRequest "album/shells") := by with_unfolding_all rfl
    obtain ⟨halbum, hsome, hnot⟩ : fresh.2.get? ["album"] = some .directory ∧
        (fresh.2.get? ["shell.svg", "shells", "album"]).isSome = true ∧
        fresh.2.get? ["shell.svg", "shells", "album"] ≠ some .directory := by decide +kernel
    have hfile : ∃ bytes, fresh.2.get? ["shell.svg", "shells", "album"] = some (.file bytes) := by
      obtain ⟨entry, hentry⟩ := Option.isSome_iff_exists.mp hsome
      cases entry with
      | directory => exact absurd hentry hnot
      | file bytes => exact ⟨bytes, hentry⟩
    have hnew : blockedTree.get? ["shell.svg", "shells", "album"] = none := by decide
    obtain ⟨bytes, hnow⟩ := hfile
    obtain ⟨-, request, hrequest, hplace⟩ := hmade ["album"] halbum (by decide)
    obtain ⟨request', source, path, hrequest', hfound, hown, hlocate⟩ :=
      hwritten ["shell.svg", "shells", "album"] bytes hnow (by rw [hnew]; nofun)
    obtain rfl := Except.ok.inj (hparse.symm.trans hrequest)
    obtain rfl := Except.ok.inj (hparse.symm.trans hrequest')
    obtain rfl := Except.ok.inj ((hsource "album/shells").symm.trans hfound)
    exact ⟨hplace, path, hown, hlocate⟩

end Draw

end CommandLine

end TurtleScript
