import TurtleScript.Proofs.Artifacts
import TurtleScript.Proofs.Token.Spacing

/-!
A script that was saved draws what it drew. The text that is saved is the one that was drawn, after
its spacing was made plain if that was asked for, and nothing that is written later has the name of
the copy. Text with plain spacing stays as it is when its spacing is made plain again, so it does not
matter whether this is asked for a second time.
-/

namespace TurtleScript

namespace Script

/-- The file name of a script without a name. -/
def copyName : String := defaultName ++ "." ++ extension

theorem isFileName_copyName : Path.IsFileName copyName where
  nonempty := by decide
  no_slash := by decide
  not_here := by decide
  not_above := by decide

/-- However its directory is spelled, a saved script has the extension of scripts. -/
theorem isScriptPath_savePath (directory : String) : isScriptPath (savePath directory) = true := by
  have hsteps : Path.steps (savePath directory) = Path.steps directory ++ [copyName] :=
    Path.steps_join isFileName_copyName
  have hname : Path.fileName? (savePath directory) = some copyName := by
    rw [Path.fileName?, hsteps, List.getLast?_concat]
    rfl
  rw [isScriptPath, Path.extension?, hname]
  decide

theorem load_of_stored {tree : FileTree} {directory text : String}
    (h : tree.Stored (savePath directory) text.toUTF8) :
    load tree (savePath directory) = .ok text := by
  rw [load, loaded, if_pos (isScriptPath_savePath directory), h.read, textOf_eq_ok_iff.mpr rfl]

end Script

namespace Artifact

open Effect (DoesAll Spares)

/-- No drawing has the name of a saved script. -/
theorem svg_ne_copyName (stem : String) : stem ++ ".svg" ≠ Script.copyName := by
  intro heq
  have hlast := congrArg (fun name => name.toList.getLast?) heq
  have hcopy : Script.copyName.toList.getLast? = some 'e' := by decide
  simp [hcopy] at hlast

theorem spares_saving {directory name : String} (hname : '/' ∉ name.toList) (n : Nat)
    (pictures : List Picture) :
    ∀ effect ∈ (drawings directory name n pictures).flatMap saving,
      Spares directory Script.copyName effect := by
  induction pictures generalizing n with
  | nil => exact nofun
  | cons picture rest ih =>
      intro effect heffect
      rw [drawings, List.flatMap_cons] at heffect
      rcases List.mem_append.mp heffect with hfirst | hrest
      · rw [saving, drawingPath_eq] at hfirst
        exact spares_writeLogged (isFileName_svg (no_slash_drawingStem hname n))
          (svg_ne_copyName _) effect hfirst
      · exact ih (n + 1) effect hrest

/-- Saving a script writes one file. -/
theorem write_of_saveScript {tree : FileTree} {directory text : String}
    (h : (Effect.perform tree (saveScript directory text)).failure = none) :
    tree.write (Script.savePath directory) text.toUTF8 =
      .ok (Effect.perform tree (saveScript directory text)).tree := by
  have hdoes := Effect.doesAll_perform h
  cases hdoes with
  | cons hfirst hrest =>
      cases hfirst with
      | write hwrite =>
          cases hrest with
          | cons hlog hnone =>
              cases hlog
              cases hnone
              exact hwrite

end Artifact

namespace CommandLine

namespace Draw

open Effect (DoesAll Spares)

/-- What the program writes after the copy of the script has another name. -/
theorem exists_copy {request : Request} (hsave : request.saveScript = true)
    (houtput : request.output = none) {source : Source} (hname : '/' ∉ source.name.toList) :
    ∃ before after, request.effects source =
        before ++ .write (Script.savePath request.directory) (request.drawnText source) :: after ∧
      ∀ effect ∈ after, Spares request.directory Script.copyName effect := by
  have hpath : request.outputPath source = Path.join request.directory (source.name ++ ".svg") := by
    rw [Request.outputPath, houtput]
    rfl
  unfold Request.effects
  simp only [hsave, if_true, hpath, Artifact.saveScript, List.append_assoc]
  rw [← List.append_assoc]
  refine ⟨_, _, rfl, ?_⟩
  intro effect heffect
  rcases List.mem_append.mp heffect with hlog | heffect
  · exact Or.inl ⟨_, List.mem_singleton.mp hlog⟩
  rcases List.mem_append.mp heffect with hlog | heffect
  · obtain ⟨record, -, hrecord⟩ := List.mem_map.mp hlog
    exact Or.inl ⟨record, hrecord.symm⟩
  rcases List.mem_append.mp heffect with hlog | heffect
  · split at hlog
    · cases hlog
    · exact Or.inl ⟨_, List.mem_singleton.mp hlog⟩
  rcases List.mem_append.mp heffect with hsaved | hfinal
  · exact Artifact.spares_saving (by decide) 0 _ effect hsaved
  · exact Artifact.spares_writeLogged (Artifact.isFileName_svg hname)
      (Artifact.svg_ne_copyName _) effect hfinal

/-- The same request for the copy of a script, with spacing that is made plain or not. -/
def Request.onCopy (request : Request) (loose : Bool) : Request :=
  { request with
    input := some (Script.savePath request.directory), demo := none, looseSpacing := loose }

theorem origin_onCopy (request : Request) (loose : Bool) :
    (request.onCopy loose).origin = .file (Script.savePath request.directory) := by
  have hnot : Script.savePath request.directory ≠ "-" := by
    intro hinput
    have hscript := Script.isScriptPath_savePath request.directory
    rw [hinput] at hscript
    exact absurd hscript (by decide)
  simp only [Request.origin, Request.onCopy]

/-- The text that is drawn stays the same when its spacing is made plain again, or not any more. -/
theorem drawnText_onCopy {request : Request} {source copy : Source} {loose : Bool}
    (hloose : loose = request.looseSpacing ∨ loose = false)
    (hcopy : copy.text = request.drawnText source) :
    (request.onCopy loose).drawnText copy = request.drawnText source := by
  unfold Request.drawnText at hcopy ⊢
  rw [hcopy]
  cases hspacing : request.looseSpacing with
  | false =>
      have hplain : loose = false := hloose.elim (fun h => h.trans hspacing) id
      simp [Request.onCopy, hplain]
  | true =>
      cases loose with
      | false => simp [Request.onCopy]
      | true => simp [Request.onCopy, Script.plainSpacing_plainSpacing]

/-- A saved script is the script. Saving a text, where that succeeds, changes one place, and loading
it from there gives the text. And when a drawing has succeeded that was asked for a copy of its
script, the copy can be loaded from the output directory, and a request for it draws what was drawn:
in every style and under all limits the same canvas, with all that it saved, and the same report.
Spacing that was made plain for the first drawing may be made plain again or not. -/
theorem saved_script_redraws :
    (∀ (tree : FileTree) (directory text : String),
      let saved := Effect.perform tree (Artifact.saveScript directory text)
      saved.failure = none →
        Script.load saved.tree (Script.savePath directory) = .ok text ∧
        ∃ place, saved.tree.locate (Script.savePath directory) = .ok place ∧
          ∀ other, other ≠ place → saved.tree.get? other = tree.get? other) ∧
    ∀ (tree : FileTree) (words : List String) (input : ByteArray) (threshold : Log.Threshold)
      (seed : Nat) (request : Request),
      parse words = .ok request → request.listDemos = false → request.saveScript = true →
      request.output = none →
      let after := run tree words input threshold seed
      after.2.status = 0 →
      ∃ source, request.origin.source (request.origin.bytes tree input) seed = .ok source ∧
        Script.load after.1 (Script.savePath request.directory) = .ok (request.drawnText source) ∧
        ∀ loose, (loose = request.looseSpacing ∨ loose = false) →
          let again := request.onCopy loose
          ∀ (input : ByteArray) (seed : Nat), ∃ copy,
            again.origin.source (again.origin.bytes after.1 input) seed = .ok copy ∧
            ∀ style limits, render (again.drawnText copy) style limits =
              render (request.drawnText source) style limits := by
  refine ⟨?_, ?_⟩
  · intro tree directory text saved hsaved
    have hwrite := Artifact.write_of_saveScript hsaved
    have hstored := FileTree.stored_write hwrite
    obtain ⟨place, hlocate, hfree, -, hinsert⟩ := FileTree.write_eq_ok hwrite
    refine ⟨Script.load_of_stored hstored, place, ?_, ?_⟩
    · exact hinsert ▸ (FileTree.keepsDirectories_insert hfree _).locate hlocate
    · intro other hother
      exact hinsert ▸ tree.get?_insert_of_ne _ hother
  · intro tree words input threshold seed request hparse hlist hsave houtput after hstatus
    obtain ⟨source, hsource, hdoes⟩ := exists_source_of_status hparse hlist hstatus
    obtain ⟨before, rest, heffects, hspares⟩ :=
      exists_copy hsave houtput (names_of_source hsource).2
    rw [heffects] at hdoes
    have hstored : after.1.Stored (Script.savePath request.directory)
        (request.drawnText source).toUTF8 :=
      hdoes.stored_last Script.isFileName_copyName hspares
    have hload := Script.load_of_stored hstored
    refine ⟨source, hsource, hload, ?_⟩
    intro loose hloose again input' seed'
    let name := (Path.stem? (Script.savePath request.directory)).getD defaultName
    refine ⟨⟨name, request.drawnText source, []⟩, ?_, ?_⟩
    · have hloaded : Script.loaded (Script.savePath request.directory)
          (after.1.read (Script.savePath request.directory)) =
            .ok (request.drawnText source) := hload
      rw [origin_onCopy, Origin.source, Origin.bytes, hloaded]
    · intro style limits
      rw [drawnText_onCopy hloose rfl]

/-- A start directory with a script that has a tab and a carriage return in it. -/
def tabbedTree : FileTree :=
  ⟨[(["spiral.logocode"], .file "fd\t1\r\nsave".toUTF8)]⟩

def tabbedWords : List String :=
  ["--loose-spacing", "--save-script", "--out-dir", "copies", "spiral.logocode"]

def tabbedRequest : Request :=
  { Request.standard with
    input := some "spiral.logocode", directory := "copies", looseSpacing := true,
    saveScript := true }

theorem saved_script_redraws_tabbed :
    let saved := Effect.perform tabbedTree (Artifact.saveScript "./" "fd\t1")
    let after := run tabbedTree tabbedWords .empty .standard 0
    let again := tabbedRequest.onCopy false
    (saved.failure = none ∧ Script.load saved.tree (Script.savePath "./") = .ok "fd\t1") ∧
      after.2.status = 0 ∧
      Script.load after.1 (Script.savePath "copies") = .ok "fd 1\nsave" ∧
      ∃ copy, again.origin.source (again.origin.bytes after.1 .empty) 0 = .ok copy ∧
        ∀ style limits, render (again.drawnText copy) style limits =
          render "fd 1\nsave" style limits := by
  intro saved after again
  obtain ⟨hsaving, hdrawing⟩ := saved_script_redraws
  have hfailure : saved.failure = none := by decide +kernel
  have hstatus : after.2.status = 0 := by decide +kernel
  have hparse : parse tabbedWords = .ok tabbedRequest := by with_unfolding_all rfl
  have hsource : tabbedRequest.origin.source (tabbedRequest.origin.bytes tabbedTree .empty) 0 =
      .ok ⟨"spiral", "fd\t1\r\nsave", []⟩ := by with_unfolding_all rfl
  have htext : tabbedRequest.drawnText ⟨"spiral", "fd\t1\r\nsave", []⟩ = "fd 1\nsave" := by
    decide +kernel
  obtain ⟨source, hfound, hload, hagain⟩ :=
    hdrawing tabbedTree tabbedWords .empty .standard 0 tabbedRequest hparse rfl rfl rfl hstatus
  obtain rfl := Except.ok.inj (hsource.symm.trans hfound)
  rw [htext] at hload hagain
  exact ⟨⟨hfailure, (hsaving tabbedTree "./" "fd\t1" hfailure).1⟩, hstatus, hload,
    hagain false (Or.inr rfl) .empty 0⟩

end Draw

end CommandLine

end TurtleScript
