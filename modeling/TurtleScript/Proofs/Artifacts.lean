import TurtleScript.CommandLine.Draw
import TurtleScript.Proofs.Drawing.Snapshots
import TurtleScript.Proofs.Files.Effects
import TurtleScript.Proofs.Replay

/-!
The files that a run of the drawing program leaves. Drawings that the script asked to save go into
the output directory under numbered names, no two of them alike, and the final drawing follows under
the name of the script. All of them are there afterwards, with one exception: a script may have the
very name of a saved drawing, and then the final drawing takes the place of that one.
-/

namespace TurtleScript

namespace Artifact

open Effect (DoesAll Spares)

/-- The file name of the `n`th saved drawing, without its extension. -/
def drawingStem (name : String) (n : Nat) : String :=
  if n = 0 then name else name ++ "_" ++ Nat.repr n

theorem drawingPath_eq (directory name : String) (n : Nat) :
    drawingPath directory name n = Path.join directory (drawingStem name n ++ ".svg") := by
  unfold drawingPath drawingStem
  split <;> rfl

/-- The number of a drawing can be told from its name. -/
theorem drawingStem_injective {name : String} {m n : Nat}
    (h : drawingStem name m = drawingStem name n) : m = n := by
  have hlonger (k : Nat) : name ≠ name ++ "_" ++ Nat.repr k := by
    intro heq
    have hlength := congrArg String.length heq
    simp only [String.length_append] at hlength
    have hone : "_".length = 1 := rfl
    omega
  unfold drawingStem at h
  by_cases hm : m = 0
  · by_cases hn : n = 0
    · rw [hm, hn]
    · rw [if_pos hm, if_neg hn] at h
      exact absurd h (hlonger n)
  · by_cases hn : n = 0
    · rw [if_neg hm, if_pos hn] at h
      exact absurd h.symm (hlonger m)
    · rw [if_neg hm, if_neg hn] at h
      have hnumber : Nat.repr m = Nat.repr n := (String.append_right_inj _).mp h
      have hdigits : Nat.toDigits 10 m = Nat.toDigits 10 n := by
        rw [← Nat.toList_repr, ← Nat.toList_repr, hnumber]
      calc
        m = Nat.ofDigitChars 10 (Nat.toDigits 10 m) 0 := Nat.ofDigitChars_ten_toDigits.symm
        _ = Nat.ofDigitChars 10 (Nat.toDigits 10 n) 0 := by rw [hdigits]
        _ = n := Nat.ofDigitChars_ten_toDigits

theorem no_slash_drawingStem {name : String} (h : '/' ∉ name.toList) (n : Nat) :
    '/' ∉ (drawingStem name n).toList := by
  unfold drawingStem
  split
  · exact h
  · have hnumber : '/' ∉ Nat.toDigits 10 n := by
      intro hmem
      exact absurd (Nat.isDigit_of_mem_toDigits (by decide) (by decide) hmem) (by decide)
    simp [h, hnumber]

theorem isFileName_svg {stem : String} (h : '/' ∉ stem.toList) :
    Path.IsFileName (stem ++ ".svg") := by
  have hlength : 4 ≤ (stem ++ ".svg").length := by
    rw [String.length_append]
    exact Nat.le_add_left 4 _
  have hne {short : String} (hshort : short.length < 4) : stem ++ ".svg" ≠ short := by
    intro heq
    rw [heq] at hlength
    omega
  exact {
    nonempty := hne (by decide)
    no_slash := by simp [h]
    not_here := hne (by decide)
    not_above := hne (by decide) }

/-- Writing one saved drawing. -/
def saving (drawing : String × Picture) : List Effect :=
  writeLogged drawing.1 drawing.2.text .drawing "saved"

theorem saveDrawings_eq (canvas : Canvas) (directory name : String) :
    saveDrawings canvas directory name =
      (drawings directory name 0 canvas.saved.toList).flatMap saving := rfl

theorem drawings_append (directory name : String) (n : Nat) (first rest : List Picture) :
    drawings directory name n (first ++ rest) =
      drawings directory name n first ++ drawings directory name (n + first.length) rest := by
  induction first generalizing n with
  | nil => rfl
  | cons picture first ih =>
      have hcount : n + 1 + first.length = n + (picture :: first).length := by
        rw [List.length_cons]
        omega
      rw [List.cons_append, drawings, drawings, ih, hcount]
      rfl

theorem spares_writeLogged {directory name other contents verb : String} {speaker : Log.Speaker}
    (hother : Path.IsFileName other) (hne : other ≠ name) :
    ∀ effect ∈ writeLogged (Path.join directory other) contents speaker verb,
      Spares directory name effect := by
  intro effect heffect
  simp only [writeLogged, List.mem_cons, List.not_mem_nil, or_false] at heffect
  rcases heffect with rfl | rfl
  · exact Or.inr ⟨other, contents, hother, hne, rfl⟩
  · exact Or.inl ⟨_, rfl⟩

/-- Drawings never take the name of one with a smaller number. -/
theorem spares_drawings {directory name : String} (hname : '/' ∉ name.toList) {m n : Nat}
    (hlt : m < n) (pictures : List Picture) :
    ∀ effect ∈ (drawings directory name n pictures).flatMap saving,
      Spares directory (drawingStem name m ++ ".svg") effect := by
  induction pictures generalizing n with
  | nil =>
      intro effect heffect
      cases heffect
  | cons picture pictures ih =>
      intro effect heffect
      rw [drawings, List.flatMap_cons] at heffect
      rcases List.mem_append.mp heffect with hfirst | hrest
      · rw [saving, drawingPath_eq] at hfirst
        refine spares_writeLogged (isFileName_svg (no_slash_drawingStem hname n)) ?_ effect hfirst
        intro heq
        have hsame : n = m := drawingStem_injective ((String.append_left_inj _).mp heq)
        omega
      · exact ih (Nat.lt_succ_of_lt hlt) effect hrest

/-- A saved drawing is there at the end if nothing that follows the saved drawings takes its
name. -/
theorem stored_drawing {directory name : String} (hname : '/' ∉ name.toList) {canvas : Canvas}
    {n : Nat} {picture : Picture} (hpicture : canvas.saved[n]? = some picture)
    {before after : List Effect} {tree later : FileTree}
    (hdoes : DoesAll (before ++ (saveDrawings canvas directory name ++ after)) tree later)
    (hafter : ∀ effect ∈ after, Spares directory (drawingStem name n ++ ".svg") effect) :
    later.Stored (drawingPath directory name n) picture.text.toUTF8 := by
  obtain ⟨hlt, hget⟩ := List.getElem?_eq_some_iff.mp
    (show canvas.saved.toList[n]? = some picture by simpa using hpicture)
  have hsaved : canvas.saved.toList =
      canvas.saved.toList.take n ++ picture :: canvas.saved.toList.drop (n + 1) := by
    rw [← hget, List.getElem_cons_drop, List.take_append_drop]
  have hlength : 0 + (canvas.saved.toList.take n).length = n := by
    rw [List.length_take]
    omega
  -- The effects are those before the drawing, its own write, and those after it.
  rw [saveDrawings_eq, hsaved, drawings_append, hlength, drawings, List.flatMap_append,
    List.flatMap_cons, saving, writeLogged, drawingPath_eq] at hdoes
  simp only [List.cons_append, List.nil_append, List.append_assoc] at hdoes
  rw [← List.append_assoc] at hdoes
  rw [drawingPath_eq]
  refine hdoes.stored_last (isFileName_svg (no_slash_drawingStem hname n)) ?_
  intro effect heffect
  rcases List.mem_cons.mp heffect with rfl | hrest
  · exact Or.inl ⟨_, rfl⟩
  · rcases List.mem_append.mp hrest with hdrawing | hlast
    · exact spares_drawings hname (Nat.lt_succ_self n) _ effect hdrawing
    · exact hafter effect hlast

end Artifact

namespace Markup

/-- A document with a further child has a longer text. -/
theorem Document.length_text_lt (d : Document) (child : Tag) :
    d.text.length < ({ d with children := d.children ++ [child] } : Document).text.length := by
  have hchild : 0 < ("<" ++ child.inside ++ "/>\n").length := by
    rw [String.length_append]
    exact Nat.lt_of_lt_of_le (by decide) (Nat.le_add_left "/>\n".length _)
  simp only [Document.text, List.map_append, List.map_cons, List.map_nil, String.join_append,
    String.join_cons, String.join_nil, String.append_empty, String.length_append] at hchild ⊢
  omega

end Markup

/-- Pictures of which one has a line more are told apart by their documents. -/
theorem Picture.text_ne_of_line (p : Picture) (line : Polyline) :
    ({ p with lines := p.lines ++ [line] } : Picture).text ≠ p.text := by
  intro hsame
  have hlonger := p.document.length_text_lt (p.stretch line)
  have hdocument : ({ p with lines := p.lines ++ [line] } : Picture).document =
      { p.document with children := p.document.children ++ [p.stretch line] } := by
    simp only [Picture.document, List.map_append]
    rfl
  rw [← hdocument] at hlonger
  exact absurd (congrArg String.length hsame) (Nat.ne_of_gt hlonger)

namespace CommandLine

namespace Draw

open Artifact (drawingPath drawingStem standardName)
open Effect (DoesAll Spares)

/-- The names that drawings have by where their scripts come from: the name of the demo, the stem
of the script's file, or a name of its own for the standard input. -/
def Origin.Names (origin : Origin) (seed : Nat) (name : String) : Prop :=
  match origin with
  | .demo known => name = known
  | .standardInput => name = "drawing"
  | .file path => Path.stem? path = some name
  | .anyDemo => name = (Demo.ofSeed seed).name

theorem no_slash_of_mem_demos {demo : Demo} (h : demo ∈ Demo.all) : '/' ∉ demo.name.toList := by
  simp only [Demo.all, List.mem_cons, List.not_mem_nil, or_false] at h
  rcases h with rfl | rfl | rfl | rfl <;> decide

/-- The name of a drawing is the one its origin gives it, and fits into a directory. -/
theorem names_of_source {origin : Origin} {bytes : Except FileError ByteArray} {seed : Nat}
    {source : Source} (h : origin.source bytes seed = .ok source) :
    origin.Names seed source.name ∧ '/' ∉ source.name.toList := by
  cases origin with
  | demo name =>
      simp only [Origin.source] at h
      cases hfind : Demo.find? name with
      | none =>
          rw [hfind] at h
          cases h
      | some found =>
          rw [hfind] at h
          cases h
          have hname : found.name = name := by simpa using List.find?_some hfind
          exact ⟨rfl, hname ▸ no_slash_of_mem_demos (List.mem_of_find?_eq_some hfind)⟩
  | standardInput =>
      simp only [Origin.source] at h
      split at h
      · cases h
        have hslash : '/' ∉ defaultName.toList := by decide
        exact ⟨rfl, hslash⟩
      · cases h
  | file path =>
      simp only [Origin.source, Script.loaded] at h
      cases hscript : Script.isScriptPath path with
      | false =>
          rw [hscript] at h
          cases h
      | true =>
          -- A script has an extension, so its file has a stem.
          have hextension : Path.extension? path = some Script.extension := by
            simpa [Script.isScriptPath] using hscript
          obtain ⟨stem, hstem⟩ := Path.exists_stem?_of_extension? hextension
          have hname : source.name = stem := by
            cases htext : Script.textOf bytes with
            | error reason => simp [hscript, htext] at h
            | ok text =>
                simp only [hscript, htext, hstem, if_true, Option.getD_some, Except.ok.injEq] at h
                rw [← h]
          rw [hname]
          exact ⟨hstem, Path.no_slash_of_stem? hstem⟩
  | anyDemo =>
      simp only [Origin.source, Except.ok.injEq] at h
      rw [← h]
      exact ⟨rfl, no_slash_of_mem_demos (List.get_mem _ _)⟩

/-- The drawings come last of all that the program does, and the final one after the saved ones. -/
theorem effects_eq {request : Request} (houtput : request.output = none) (source : Source) :
    let canvas := (render (request.drawnText source) request.style request.limits).canvas
    ∃ preparations, request.effects source = preparations ++
      (Artifact.saveDrawings canvas request.directory standardName ++
        Artifact.writeLogged (Path.join request.directory (source.name ++ ".svg"))
          canvas.picture.text .commandLine "wrote") := by
  have hpath : request.outputPath source = Path.join request.directory (source.name ++ ".svg") := by
    rw [Request.outputPath, houtput]
    rfl
  unfold Request.effects
  rw [hpath]
  exact ⟨_, List.append_assoc _ _ _⟩

/-- A program that ends well without being asked for a list has a script, and has done all that it
does with it. -/
theorem exists_source_of_status {tree : FileTree} {words : List String} {input : ByteArray}
    {threshold : Log.Threshold} {seed : Nat} {request : Request}
    (hparse : parse words = .ok request) (hlist : request.listDemos = false)
    (hstatus : (run tree words input threshold seed).2.status = 0) :
    ∃ source, request.origin.source (request.origin.bytes tree input) seed = .ok source ∧
      DoesAll (request.effects source) tree (run tree words input threshold seed).1 := by
  unfold run at hstatus ⊢
  simp only [hparse, hlist, Bool.false_eq_true, if_false] at hstatus ⊢
  cases hsource : request.origin.source (request.origin.bytes tree input) seed with
  | error reason =>
      rw [hsource] at hstatus
      cases hstatus
  | ok source =>
      rw [hsource] at hstatus
      refine ⟨source, rfl, Effect.doesAll_perform ?_⟩
      cases hfailure : (Effect.perform tree (request.effects source)).failure with
      | none => rfl
      | some message =>
          simp only [ending, hfailure] at hstatus
          cases hstatus

/-- The final drawing is written last of all, so it is there at the end. -/
theorem stored_final {request : Request} {source : Source} {tree left : FileTree}
    (houtput : request.output = none) (hname : '/' ∉ source.name.toList)
    (hdoes : DoesAll (request.effects source) tree left) :
    left.Stored (Path.join request.directory (source.name ++ ".svg"))
      (render (request.drawnText source) request.style
        request.limits).canvas.picture.text.toUTF8 := by
  obtain ⟨preparations, heffects⟩ := effects_eq houtput source
  rw [heffects, ← List.append_assoc] at hdoes
  refine hdoes.stored_last (Artifact.isFileName_svg hname) ?_
  intro effect heffect
  exact Or.inl ⟨_, List.mem_singleton.mp heffect⟩

/-- A drawing that succeeds leaves its files. The final drawing is in the output directory under the
name of its script. For every command to save, there is a file with the drawing that was saved,
unless the script has the name of that file: the final drawing has then taken its place. -/
theorem files_of_success {tree : FileTree} {words : List String} {input : ByteArray}
    {threshold : Log.Threshold} {seed : Nat} {request : Request}
    (hparse : parse words = .ok request) (hlist : request.listDemos = false)
    (houtput : request.output = none)
    (hstatus : (run tree words input threshold seed).2.status = 0) :
    ∃ source, request.origin.source (request.origin.bytes tree input) seed = .ok source ∧
      request.origin.Names seed source.name ∧
      let text := request.drawnText source
      let commands := (Program.parse text).commands .standard request.limits
      let canvas := (render text request.style request.limits).canvas
      let left := (run tree words input threshold seed).1
      canvas = Canvas.drawn request.style commands ∧
      (∀ n, n < Snapshots.saveCount commands → ∃ picture, canvas.saved[n]? = some picture ∧
        left.read (drawingPath request.directory standardName n) =
          .ok (if source.name = drawingStem standardName n then canvas.picture
            else picture).text.toUTF8) ∧
      left.read (Path.join request.directory (source.name ++ ".svg")) =
        .ok canvas.picture.text.toUTF8 := by
  obtain ⟨source, hsource, hdoes⟩ := exists_source_of_status hparse hlist hstatus
  obtain ⟨hnames, hslash⟩ := names_of_source hsource
  refine ⟨source, hsource, hnames, ?_⟩
  intro text commands canvas left
  have hcanvas : canvas = Canvas.drawn request.style commands := canvas_render _ _ _
  have hfinal : left.read (Path.join request.directory (source.name ++ ".svg")) =
      .ok canvas.picture.text.toUTF8 := (stored_final houtput hslash hdoes).read
  refine ⟨hcanvas, ?_, hfinal⟩
  intro n hn
  have hsize : n < canvas.saved.size := by
    rw [hcanvas, Snapshots.size_saved_drawn]
    exact hn
  have hpicture : canvas.saved[n]? = some canvas.saved[n] := Array.getElem?_eq_getElem hsize
  refine ⟨canvas.saved[n], hpicture, ?_⟩
  by_cases hcollision : source.name = drawingStem standardName n
  · rw [if_pos hcollision, Artifact.drawingPath_eq, ← hcollision]
    exact hfinal
  · rw [if_neg hcollision]
    obtain ⟨preparations, heffects⟩ := effects_eq houtput source
    rw [heffects] at hdoes
    refine (Artifact.stored_drawing (by decide) hpicture hdoes ?_).read
    apply Artifact.spares_writeLogged (Artifact.isFileName_svg hslash)
    intro hsame
    exact hcollision ((String.append_left_inj _).mp hsame)

/-- A start directory with a script that saves the empty drawing and then draws a line. -/
def directoryWith (file : String) : FileTree :=
  ⟨[([file], .file "save fd 1".toUTF8)]⟩

def drawingOf (file : String) : Request :=
  { Request.standard with input := some file }

theorem canvas_saveAndDraw (file : String) :
    (render "save fd 1" (drawingOf file).style (drawingOf file).limits).canvas =
      Canvas.drawn (drawingOf file).style [.save, .forward 1] := by
  have hcommands : (Program.parse "save fd 1").commands .standard .standard =
      [.save, .forward 1] := by
    with_unfolding_all rfl
  have hlimits : (drawingOf file).limits = .standard := rfl
  rw [canvas_render, hlimits, hcommands]

theorem files_of_success_snail :
    let request := drawingOf "snail.logocode"
    let left := run (directoryWith "snail.logocode") ["snail.logocode"] .empty .standard 0
    parse ["snail.logocode"] = .ok request ∧ left.2.status = 0 ∧
      left.1.read (drawingPath request.directory standardName 0) =
        .ok (Canvas.new request.style).picture.text.toUTF8 ∧
      left.1.read (Path.join request.directory "snail.svg") =
        .ok (Canvas.drawn request.style [.save, .forward 1]).picture.text.toUTF8 := by
  intro request left
  have hparse : parse ["snail.logocode"] = .ok request := by
    with_unfolding_all rfl
  have hstatus : left.2.status = 0 := by decide +kernel
  have hsource : request.origin.source
      (request.origin.bytes (directoryWith "snail.logocode") .empty) 0 =
        .ok ⟨"snail", "save fd 1", []⟩ := by
    with_unfolding_all rfl
  obtain ⟨source, hfound, -, -, hsaved, hfinal⟩ :=
    files_of_success hparse rfl rfl hstatus
  obtain rfl : source = ⟨"snail", "save fd 1", []⟩ := Except.ok.inj (hfound.symm.trans hsource)
  have htext : request.drawnText ⟨"snail", "save fd 1", []⟩ = "save fd 1" := rfl
  have hsaves : 0 < Snapshots.saveCount
      ((Program.parse "save fd 1").commands .standard request.limits) := by decide +kernel
  rw [htext] at hsaved hfinal
  obtain ⟨picture, hpicture, hread⟩ := hsaved 0 hsaves
  rw [canvas_saveAndDraw] at hpicture hfinal
  rw [if_neg (show ¬ "snail" = drawingStem standardName 0 by decide)] at hread
  obtain rfl : (Canvas.new request.style).picture = picture := Option.some.inj hpicture
  exact ⟨hparse, hstatus, hread, hfinal⟩

/-- A script with the name of saved drawings loses the drawing that it saved. -/
theorem drawing_lost_namesake :
    let request := drawingOf "turtled_image.logocode"
    let left := run (directoryWith "turtled_image.logocode") ["turtled_image.logocode"] .empty
      .standard 0
    parse ["turtled_image.logocode"] = .ok request ∧ left.2.status = 0 ∧
      ∃ picture,
        (render "save fd 1" request.style request.limits).canvas.saved[0]? = some picture ∧
        left.1.read (drawingPath request.directory standardName 0) ≠ .ok picture.text.toUTF8 := by
  intro request left
  have hparse : parse ["turtled_image.logocode"] = .ok request := by
    with_unfolding_all rfl
  have hstatus : left.2.status = 0 := by decide +kernel
  have hsource : request.origin.source
      (request.origin.bytes (directoryWith "turtled_image.logocode") .empty) 0 =
        .ok ⟨standardName, "save fd 1", []⟩ := by
    with_unfolding_all rfl
  obtain ⟨source, hfound, hdoes⟩ := exists_source_of_status hparse rfl hstatus
  obtain rfl : source = ⟨standardName, "save fd 1", []⟩ :=
    Except.ok.inj (hfound.symm.trans hsource)
  have hfinal := (stored_final rfl (names_of_source hsource).2 hdoes).read
  have htext : request.drawnText ⟨standardName, "save fd 1", []⟩ = "save fd 1" := rfl
  have hstem : drawingStem standardName 0 = standardName := rfl
  rw [htext, canvas_saveAndDraw] at hfinal
  refine ⟨hparse, hstatus, (Canvas.new request.style).picture, ?_, ?_⟩
  · rw [canvas_saveAndDraw]
    rfl
  · rw [Artifact.drawingPath_eq, hstem, hfinal]
    intro hsame
    have htexts := String.toByteArray_inj.mp (Except.ok.inj hsame)
    exact (Canvas.new request.style).picture.text_ne_of_line _ htexts

end Draw

end CommandLine

end TurtleScript
