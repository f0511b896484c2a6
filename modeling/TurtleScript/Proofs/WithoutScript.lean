import TurtleScript.CommandLine.Draw
import TurtleScript.CommandLine.Trace
import TurtleScript.Proofs.Files.Hosts

/-!
What the programs do to the files of their host when there is nothing to draw. The program that
draws reads before it writes: it has touched nothing when it is refused, when it lists its demos,
and when the script that it was told to draw cannot be had. The program that prints what a script
does only reads. Both are the programs that run on a machine, here with a file tree for a host.
-/

namespace TurtleScript

/-- No text comes of anything but the bytes of a text. -/
theorem Script.exists_textOf_eq_error_iff {contents : Except FileError ByteArray} :
    (∃ reason, textOf contents = .error reason) ↔
      ∀ text : String, contents ≠ .ok text.toUTF8 := by
  constructor
  · rintro ⟨reason, herror⟩ text hcontents
    rw [textOf_eq_ok_iff.mpr hcontents] at herror
    cases herror
  · intro hnone
    cases htext : textOf contents with
    | error reason => exact ⟨reason, rfl⟩
    | ok text => exact absurd (textOf_eq_ok_iff.mp htext) (hnone text)

namespace CommandLine

variable {locked : String → Option FileError} {input : Except FileError ByteArray}
  {tree : FileTree} {words : List String} {threshold : Log.Threshold} {seed : Nat}

namespace Trace

/-- The program only reads. -/
theorem tree_runOn : ((runOn (.ofTree locked input) words).run tree).2 = tree := by
  unfold runOn
  cases parse words with
  | ok request => rfl
  | error refusal => rfl

/-- On a file tree without locks the program ends as it does on the tree. -/
theorem runOn_ofTree :
    (runOn (.ofTree (fun _ => none) input) words).run tree = (run tree words, tree) := by
  unfold runOn run
  cases parse words with
  | ok request => rfl
  | error refusal => rfl

end Trace

namespace Draw

/-- What is read for an origin on a file tree. -/
def Origin.contents (origin : Origin) (locked : String → Option FileError)
    (input : Except FileError ByteArray) (tree : FileTree) : Except FileError ByteArray :=
  ((origin.fetch (.ofTree locked input)).run tree).1

theorem Origin.contents_file {path : String} (h : Script.isScriptPath path = true) :
    (Origin.file path).contents locked input tree = tree.readUnlocked locked path := by
  simp only [contents, fetch, h, if_true, Host.run_read]

theorem Origin.run_fetch (origin : Origin) :
    (origin.fetch (.ofTree locked input)).run tree =
      (origin.contents locked input tree, tree) := by
  refine Prod.ext rfl ?_
  cases origin with
  | demo name => rfl
  | standardInput => rfl
  | anyDemo => rfl
  | file path =>
      simp only [fetch]
      split
      · rfl
      · rfl

/-- Origins that no script comes from: a demo that nobody knows, a file that is not named as a
script or from which the bytes of a text cannot be read, and a standard input from which they
cannot. -/
def Origin.Scriptless (origin : Origin) (locked : String → Option FileError)
    (input : Except FileError ByteArray) (tree : FileTree) : Prop :=
  match origin with
  | .demo name => ∀ demo ∈ Demo.all, demo.name ≠ name
  | .standardInput => ∀ text : String, input ≠ .ok text.toUTF8
  | .file path => Path.extension? path ≠ some "logocode" ∨
      ∀ text : String, tree.readUnlocked locked path ≠ .ok text.toUTF8
  | .anyDemo => False

/-- The origins that no script comes from are those at which the program gives up. -/
theorem scriptless_iff (origin : Origin) (seed : Nat) :
    origin.Scriptless locked input tree ↔
      ∃ reason, origin.source (origin.contents locked input tree) seed = .error reason := by
  cases origin with
  | demo name =>
      have hunknown : (∀ demo ∈ Demo.all, demo.name ≠ name) ↔ Demo.find? name = none := by
        simp [Demo.find?, List.find?_eq_none]
      simp only [Origin.Scriptless, Origin.source, hunknown]
      cases Demo.find? name with
      | none => simp
      | some found => simp
  | standardInput =>
      have hcontents : Origin.standardInput.contents locked input tree = input := rfl
      simp only [Origin.Scriptless, Origin.source, hcontents, ← Script.exists_textOf_eq_error_iff]
      cases Script.textOf input with
      | ok text => simp
      | error reason => simp
  | file path =>
      simp only [Origin.Scriptless, Origin.source, Script.loaded]
      cases hscript : Script.isScriptPath path with
      | false =>
          have hextension : Path.extension? path ≠ some "logocode" := by
            simpa [Script.isScriptPath, Script.extension] using hscript
          simp [hextension]
      | true =>
          have hextension : Path.extension? path = some "logocode" := by
            simpa [Script.isScriptPath, Script.extension] using hscript
          simp only [Origin.contents_file hscript, hextension, ne_eq, not_true_eq_false, false_or,
            if_true, ← Script.exists_textOf_eq_error_iff]
          cases Script.textOf (tree.readUnlocked locked path) with
          | ok text => simp
          | error reason => simp
  | anyDemo => simp [Origin.Scriptless, Origin.source]

/-- A program that is refused does nothing on any host. -/
theorem runOn_of_refusal {m : Type → Type} [Monad m] {host : Host m} {refusal : Refusal}
    (hparse : parse words = .error refusal) :
    runOn host words threshold seed = pure (refusal.ending usage) := by
  rw [runOn, hparse]

/-- The demos are listed without any help of the host. -/
theorem runOn_of_listDemos {m : Type → Type} [Monad m] {host : Host m} {request : Request}
    (hparse : parse words = .ok request) (hlist : request.listDemos = true) :
    runOn host words threshold seed = pure listing := by
  simp only [runOn, hparse, hlist, if_true]

/-- Without a script the program ends where it has read for one. -/
theorem run_runOn_of_error {request : Request} {reason : SourceError}
    (hparse : parse words = .ok request) (hlist : request.listDemos = false)
    (hsource : request.origin.source (request.origin.contents locked input tree) seed =
      .error reason) :
    (runOn (.ofTree locked input) words threshold seed).run tree =
      (ending threshold [] (some reason.message), tree) := by
  simp only [runOn, hparse, hlist, Bool.false_eq_true, if_false]
  rw [Host.run_bind (Origin.run_fetch _), hsource]
  rfl

/-- With a script the program works off its effects. -/
theorem run_runOn_of_ok {request : Request} {source : Source}
    (hparse : parse words = .ok request) (hlist : request.listDemos = false)
    (hsource : request.origin.source (request.origin.contents locked input tree) seed =
      .ok source) :
    let outcome := Effect.perform tree (request.effects source)
    (runOn (.ofTree locked input) words threshold seed).run tree =
      (ending threshold outcome.log outcome.failure, outcome.tree) := by
  intro outcome
  simp only [runOn, hparse, hlist, Bool.false_eq_true, if_false]
  rw [Host.run_bind (Origin.run_fetch _), hsource]
  exact Host.run_bind (Effect.run_performOn _ tree)

/-- The file that is not opened would have been refused for its name. -/
theorem source_contents (origin : Origin) (input : ByteArray) (tree : FileTree) (seed : Nat) :
    origin.source (origin.contents (fun _ => none) (.ok input) tree) seed =
      origin.source (origin.bytes tree input) seed := by
  cases origin with
  | demo name => rfl
  | standardInput => rfl
  | anyDemo => rfl
  | file path =>
      cases hscript : Script.isScriptPath path with
      | true =>
          rw [Origin.contents_file hscript]
          rfl
      | false => simp [Origin.source, Script.loaded, hscript]

/-- On a file tree without locks the program does what it does to the tree. -/
theorem runOn_ofTree (input : ByteArray) :
    (runOn (.ofTree (fun _ => none) (.ok input)) words threshold seed).run tree =
      ((run tree words input threshold seed).2, (run tree words input threshold seed).1) := by
  unfold run
  cases hparse : parse words with
  | error refusal =>
      rw [runOn_of_refusal hparse]
      rfl
  | ok request =>
      cases hlist : request.listDemos with
      | true =>
          rw [runOn_of_listDemos hparse hlist]
          simp only [hlist, if_true]
          rfl
      | false =>
          have hsame := source_contents request.origin input tree seed
          cases hsource : request.origin.source (request.origin.bytes tree input) seed with
          | error reason =>
              rw [run_runOn_of_error hparse hlist (hsame.trans hsource)]
              simp [hlist, hsource]
          | ok source =>
              rw [run_runOn_of_ok hparse hlist (hsame.trans hsource)]
              simp [hlist, hsource]

theorem status_ending (threshold : Log.Threshold) (log : List Log.Record)
    (failure : Option String) :
    (ending threshold log failure).status = if failure.isSome then 1 else 0 := by
  cases failure with
  | none => rfl
  | some message => rfl

/-- Only wrong usage is told by the status 2. -/
theorem status_runOn_eq_two_iff :
    ((runOn (.ofTree locked input) words threshold seed).run tree).1.status = 2 ↔
      parse words = .error .wrongUsage := by
  cases hparse : parse words with
  | error refusal =>
      rw [runOn_of_refusal hparse]
      cases refusal with
      | wrongUsage => exact ⟨fun _ => rfl, fun _ => rfl⟩
      | helpWanted => exact ⟨nofun, nofun⟩
  | ok request =>
      -- A request is answered with a list or an ending, and neither has this status.
      have hother : ∀ {log failure}, (ending threshold log failure).status ≠ 2 := by
        intro log failure
        rw [status_ending]
        split <;> decide
      refine iff_of_false ?_ nofun
      cases hlist : request.listDemos with
      | true =>
          rw [runOn_of_listDemos hparse hlist]
          exact nofun
      | false =>
          cases hsource : request.origin.source
              (request.origin.contents locked input tree) seed with
          | error reason =>
              rw [run_runOn_of_error hparse hlist hsource]
              exact hother
          | ok source =>
              rw [run_runOn_of_ok hparse hlist hsource]
              exact hother

end Draw

/-- A drawing without a script changes nothing. Whatever files there are, the program that draws
leaves them as they were if it ends with status 2, which tells of wrong usage and nothing else; if
it was asked to list its demos, with status 0; and otherwise if no script comes from where it was
told to look, with status 1. In every other case it has a script, and the files are what the effects
of that make of them. The program that prints what a script does leaves all files as they were on
every command line. -/
theorem unchanged_without_script (locked : String → Option FileError)
    (input : Except FileError ByteArray) (tree : FileTree) (words : List String)
    (threshold : Log.Threshold) (seed : Nat) :
    let host := Host.ofTree locked input
    let after := (Draw.runOn host words threshold seed).run tree
    (after.1.status = 2 ↔ Draw.parse words = .error .wrongUsage) ∧
    (after.1.status = 2 → after.2 = tree) ∧
    (∀ request, Draw.parse words = .ok request → request.listDemos = true →
      after.1.status = 0 ∧ after.2 = tree) ∧
    (∀ request, Draw.parse words = .ok request → request.listDemos = false →
      (request.origin.Scriptless locked input tree → after.1.status = 1 ∧ after.2 = tree) ∧
      (¬ request.origin.Scriptless locked input tree → ∃ source,
        request.origin.source (request.origin.contents locked input tree) seed = .ok source ∧
        after.2 = (Effect.perform tree (request.effects source)).tree)) ∧
    ((Trace.runOn host words).run tree).2 = tree := by
  refine ⟨Draw.status_runOn_eq_two_iff, ?_, ?_, ?_, Trace.tree_runOn⟩
  · intro hstatus
    rw [Draw.runOn_of_refusal (Draw.status_runOn_eq_two_iff.mp hstatus)]
    rfl
  · intro request hparse hlist
    rw [Draw.runOn_of_listDemos hparse hlist]
    exact ⟨rfl, rfl⟩
  · intro request hparse hlist
    cases hsource : request.origin.source (request.origin.contents locked input tree) seed with
    | error reason =>
        have hscriptless := (Draw.scriptless_iff _ seed).mpr ⟨reason, hsource⟩
        rw [Draw.run_runOn_of_error hparse hlist hsource]
        exact ⟨fun _ => ⟨rfl, rfl⟩, fun hscript => absurd hscriptless hscript⟩
    | ok source =>
        rw [Draw.run_runOn_of_ok hparse hlist hsource]
        refine ⟨?_, fun _ => ⟨source, rfl, rfl⟩⟩
        intro hscriptless
        obtain ⟨reason, herror⟩ := (Draw.scriptless_iff _ seed).mp hscriptless
        cases hsource.symm.trans herror

/-- A start directory with a script. -/
def diaryTree : FileTree :=
  ⟨[(["diary.logocode"], .file "fd 1".toUTF8)]⟩

/-- A lock on the script. -/
def diaryLock (path : String) : Option FileError :=
  if path = "diary.logocode" then some (.other "Permission denied (os error 13)") else none

theorem unchanged_without_script_diary :
    let host := Host.ofTree diaryLock (.ok .empty)
    let after := fun words => (Draw.runOn host words .standard 0).run diaryTree
    let locked := ["--out-dir", "copies", "--save-script", "diary.logocode"]
    let listing := ["--list-demos", "--out-dir", "copies"]
    let twice := "--list-demos" :: listing
    ((after locked).1.status = 1 ∧ (after locked).2 = diaryTree) ∧
      ((after listing).1.status = 0 ∧ (after listing).2 = diaryTree) ∧
      ((after twice).1.status = 2 ∧ (after twice).2 = diaryTree) ∧
      ((Trace.runOn host ["diary.logocode"]).run diaryTree).2 = diaryTree := by
  intro host after locked listing twice
  obtain ⟨-, -, -, hlocked, -⟩ :=
    unchanged_without_script diaryLock (.ok .empty) diaryTree locked .standard 0
  obtain ⟨-, -, hlisting, -, -⟩ :=
    unchanged_without_script diaryLock (.ok .empty) diaryTree listing .standard 0
  obtain ⟨hwrong, hsame, -, -, -⟩ :=
    unchanged_without_script diaryLock (.ok .empty) diaryTree twice .standard 0
  obtain ⟨-, -, -, -, htrace⟩ :=
    unchanged_without_script diaryLock (.ok .empty) diaryTree ["diary.logocode"] .standard 0
  let request : Draw.Request :=
    { Draw.Request.standard with
      input := some "diary.logocode", directory := "copies", saveScript := true }
  have hparse : Draw.parse locked = .ok request := by with_unfolding_all rfl
  have hscriptless : request.origin.Scriptless diaryLock (.ok .empty) diaryTree :=
    Or.inr nofun
  have hstatus := hwrong.mpr (by with_unfolding_all rfl)
  exact ⟨(hlocked request hparse rfl).1 hscriptless,
    hlisting { Draw.Request.standard with listDemos := true, directory := "copies" }
      (by with_unfolding_all rfl) rfl, ⟨hstatus, hsame hstatus⟩, htrace⟩

end CommandLine

end TurtleScript
