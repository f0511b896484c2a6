import TurtleScript.CommandLine.Trace
import TurtleScript.Proofs.Interpreter.Agreement
import TurtleScript.Proofs.Interpreter.Orders
import TurtleScript.Proofs.Number.ReadBack
import TurtleScript.Proofs.Token.Spelling

/-!
Transcripts: the commands of a run, one a line. A transcript is a script again, and running it gives
the turtle the same commands. For this each command has to be written in words that are orders for
it, and no run may give a command that cannot be written: a number is finite because a script can
only name finite ones, and a colour is one token because the script had it as a token.
-/

namespace TurtleScript

universe u

namespace Command

/-- Commands that can be written in a script: a number is finite, and a colour is one token. -/
def IsWritten : Command → Prop
  | forward x | back x | right x | left x | setHeading x =>
      Binary64.magnitude x < Binary64.infinity
  | background colour => Token.IsWritten ⟨colour⟩
  | penUp | penDown | home | save => True

/-- The words that a command is written in. -/
def words : Command → List Token
  | forward distance => [⟨"forward"⟩, ⟨Number.text distance⟩]
  | back distance => [⟨"back"⟩, ⟨Number.text distance⟩]
  | right angle => [⟨"right"⟩, ⟨Number.text angle⟩]
  | left angle => [⟨"left"⟩, ⟨Number.text angle⟩]
  | setHeading angle => [⟨"setheading"⟩, ⟨Number.text angle⟩]
  | penUp => [⟨"penup"⟩]
  | penDown => [⟨"pendown"⟩]
  | home => [⟨"home"⟩]
  | background colour => [Keyword.background.token, ⟨colour⟩]
  | save => [Keyword.save.token]

/-- The words of a command are an order for it. -/
theorem isOrder_words {command : Command} (h : command.IsWritten) :
    IsOrder .standard command.words command := by
  cases command with
  | forward x | back x | right x | left x | setHeading x =>
      exact .numeric (by decide) rfl (Number.finite?_text h)
  | penUp | penDown | home => exact .plain (by decide) rfl
  | background colour => exact .background ⟨colour⟩
  | save => exact .save

theorem areOrders_words {commands : List Command} (h : ∀ c ∈ commands, c.IsWritten) :
    AreOrders .standard (commands.flatMap words) commands := by
  induction commands with
  | nil => exact .nil
  | cons command commands ih =>
      rw [List.flatMap_cons]
      exact .cons (isOrder_words (h command (by simp)))
        (ih fun c hc => h c (List.mem_cons_of_mem _ hc))

/-- A word and its input on a line of their own. -/
theorem spells_line {name input : Token} {ts : List Token} {rest : List Char}
    (hname : name.IsWritten) (hinput : input.IsWritten) (hrest : Token.Spells ts rest) :
    Token.Spells (name :: input :: ts)
      ((name.text ++ " " ++ input.text).toList ++ '\n' :: rest) := by
  have hspells : Token.Spells (name :: input :: ts)
      (name.text.toList ++ ' ' :: (input.text.toList ++ '\n' :: rest)) :=
    .cons_separator hname (by decide) (.cons_separator hinput (by decide) hrest)
  simpa using hspells

/-- The line of a command spells its words. -/
theorem spells_words {command : Command} (h : command.IsWritten) {ts : List Token}
    {rest : List Char} (hrest : Token.Spells ts rest) :
    Token.Spells (command.words ++ ts) (command.text.toList ++ '\n' :: rest) := by
  cases command with
  | forward x | back x | right x | left x | setHeading x =>
      exact spells_line (by decide) (Number.isWritten_text h) hrest
  | penUp | penDown | home | save => exact .cons_separator (by decide) (by decide) hrest
  | background colour => exact spells_line (by decide) h hrest

end Command

/-- What a primitive tells the turtle can be written. -/
def Action.Writes : Action → Prop
  | plain command => command.IsWritten
  | numeric make => ∀ x, Binary64.magnitude x < Binary64.infinity → (make x).IsWritten

theorem CommandTable.writes_of_find? {name : String} {action : Action}
    (h : standard.find? name = some action) : action.Writes := by
  have hrows : ∀ row ∈ standardRows, row.2.Writes := by
    simp [standardRows, Action.Writes, Command.IsWritten]
  exact hrows _ (mem_standardRows_of_find? h)

namespace Clocked

variable {σ : Type u} {C : Clocked σ} {command : Command}

/-- Nothing can be given that cannot be written, if the table is the standard one and the tokens
come from a text. -/
theorem isWritten_of_gives (htable : C.table = .standard)
    (htokens : ∀ t ∈ C.tokens, t.IsWritten) (h : C.Gives command) : command.IsWritten := by
  cases h with
  | save => trivial
  | background hcolour => exact htokens _ hcolour
  | plain hfind => exact CommandTable.writes_of_find? (htable ▸ hfind)
  | @numeric name text make x hfind hx =>
      have hfinite := (Option.filter_eq_some_iff.mp hx).2
      have hwrites : Action.Writes (.numeric make) := CommandTable.writes_of_find? (htable ▸ hfind)
      exact hwrites x (by simpa using hfinite)

/-- A recording turtle is only ever given what can be written. -/
theorem keeps_isWritten {I : Interpreter (Array Command)} (htable : I.table = .standard)
    (hrecording : I.obey = Array.push) (htokens : ∀ t ∈ I.tokens, t.IsWritten) :
    I.clocked.Keeps fun s => ∀ c ∈ s.turtle, c.IsWritten where
  tick hs _ := hs
  give := by
    intro s command hs _ hgives c hc
    have hpush : c ∈ s.turtle.push command := by
      change c ∈ I.obey s.turtle command at hc
      rwa [hrecording] at hc
    rcases Array.mem_push.mp hpush with hc | rfl
    · exact hs c hc
    · exact isWritten_of_gives (C := I.clocked) htable htokens hgives
  skip _ hs := hs
  cut hs _ := hs
  define := by
    intro s name index hs _ _ _
    rcases s.define_cases I.clocked.table name (index + 2) with ⟨reason, hskip⟩ | ⟨-, -, -, hnew⟩
    · rw [hskip]
      exact hs
    · rw [hnew]
      exact hs

end Clocked

namespace Transcript

open CommandLine

variable {commands : List Command}

/-- A run with the standard table gives no command that cannot be written. -/
theorem isWritten_of_mem_record (source : String) (limits : Limits) :
    ∀ c ∈ ((Program.parse source).record .standard limits).1, c.IsWritten := by
  let I : Interpreter (Array Command) :=
    ⟨(Program.parse source).tokens, .standard, limits, Array.push⟩
  have htokens : ∀ t ∈ I.tokens, t.IsWritten := by
    intro t ht
    apply Token.isWritten_of_mem_tokenize
    simpa [I, Program.parse] using ht
  have hkeeps := Clocked.keeps_isWritten (I := I) rfl rfl htokens
  have hrun := hkeeps.run .top 0 (s := .new #[]) (by simp [Session.new])
  rw [Interpreter.clocked_run] at hrun
  exact hrun

/-- The lines of commands spell their words. -/
theorem spells_unlines (h : ∀ c ∈ commands, c.IsWritten) :
    Token.Spells (commands.flatMap Command.words)
      (Trace.unlines (commands.map Command.text)).toList := by
  induction commands with
  | nil => exact .nil
  | cons command commands ih =>
      have hrest := ih fun c hc => h c (List.mem_cons_of_mem _ hc)
      have hline := Command.spells_words (h command (by simp)) hrest
      simpa [Trace.unlines] using hline

theorem parse_unlines (h : ∀ c ∈ commands, c.IsWritten) :
    Program.parse (Trace.unlines (commands.map Command.text)) =
      ⟨(commands.flatMap Command.words).toArray⟩ := by
  have htokens := Token.tokenize_of_spells (spells_unlines h)
  rw [String.ofList_toList] at htokens
  rw [Program.parse, htokens]

/-- A transcript is run as the commands that it writes down. -/
theorem record_unlines (h : ∀ c ∈ commands, c.IsWritten) :
    (Program.parse (Trace.unlines (commands.map Command.text))).record .standard .standard =
      (commands.toArray, ⟨[], [], false⟩) := by
  rw [parse_unlines h]
  let I : Interpreter (Array Command) :=
    ⟨(commands.flatMap Command.words).toArray, .standard, .standard, Array.push⟩
  have hahead : I.ahead 0 = commands.flatMap Command.words ++ [] := by
    simp [Interpreter.ahead, I]
  have hrun : I.run .top 0 (.new #[]) = (I.tokens.size, I.giveAll (.new #[]) commands) := by
    rw [Interpreter.run, Interpreter.runWithin_eq,
      Interpreter.walk_orders (Command.areOrders_words h) rfl (Procedures.respects_empty _) hahead,
      Interpreter.walk_of_size_le (by simp [I])]
  rw [Program.record_eq_session]
  change ((I.run .top 0 (.new #[])).2.turtle, (I.run .top 0 (.new #[])).2.report) = _
  rw [hrun]
  simp only [Interpreter.turtle_giveAll, Interpreter.report_giveAll]
  simp [I, Session.report, Session.new, Procedures.names, Procedures.empty]

/-- What is printed for a transcript is the transcript, also if skipped tokens are asked for. -/
theorem output_unlines (h : ∀ c ∈ commands, c.IsWritten) (input : String) (verbose : Bool) :
    Trace.output ⟨input, false, verbose⟩ (Trace.unlines (commands.map Command.text)) =
      Trace.unlines (commands.map Command.text) := by
  simp only [Trace.output, record_unlines h]
  cases verbose <;> simp [Trace.unlines]

theorem textOf_toUTF8 (text : String) : Script.textOf (.ok text.toUTF8) = .ok text :=
  Script.textOf_eq_ok_iff.mpr rfl

theorem run_of_textOf {tree : FileTree} {words : List String} {request : Trace.Request}
    {source : String} (hwords : Trace.parse words = .ok request)
    (hsource : Script.textOf (tree.read request.input) = .ok source) :
    Trace.run tree words = ⟨0, Trace.output request source, ""⟩ := by
  simp only [Trace.run, hwords, Trace.respond, hsource]

/-- The transcript of a run is a fixpoint. Commands that can be written are what their transcript
makes the turtle do, and nothing else happens; every run gives such commands only; so the program
that prints transcripts prints what it is given, if that is what it has printed before. -/
theorem transcript_is_fixpoint :
    (∀ commands : List Command, (∀ c ∈ commands, c.IsWritten) →
      (Program.parse (Trace.unlines (commands.map Command.text))).record .standard .standard =
        (commands.toArray, ⟨[], [], false⟩)) ∧
    (∀ (source : String) (limits : Limits),
      ∀ c ∈ ((Program.parse source).record .standard limits).1, c.IsWritten) ∧
    (∀ (tree tree' : FileTree) (words words' : List String) (input input' source : String)
      (verbose : Bool), Trace.parse words = .ok ⟨input, false, false⟩ →
      Script.textOf (tree.read input) = .ok source →
      Trace.parse words' = .ok ⟨input', false, verbose⟩ →
      tree'.read input' = .ok (Trace.run tree words).output.toUTF8 →
      Trace.run tree' words' = Trace.run tree words) := by
  refine ⟨fun commands h => record_unlines h, isWritten_of_mem_record, ?_⟩
  intro tree tree' words words' input input' source verbose hwords hsource hwords' hread
  have hrun := run_of_textOf hwords hsource
  have htext : Script.textOf (tree'.read input') =
      .ok (Trace.output ⟨input, false, false⟩ source) := by
    rw [hread, hrun]
    exact textOf_toUTF8 _
  rw [run_of_textOf hwords' htext, hrun]
  have hwritten : ∀ c ∈ ((Program.parse source).record .standard .standard).1.toList,
      c.IsWritten := by
    intro c hc
    exact isWritten_of_mem_record source .standard c (Array.mem_toList_iff.mp hc)
  have hprinted : Trace.output ⟨input, false, false⟩ source = Trace.unlines
      (((Program.parse source).record .standard .standard).1.toList.map Command.text) := by
    simp [Trace.output]
  rw [hprinted, output_unlines hwritten]

/-- A script that paints with brackets and words of the language, names numbers at the ends of their
range, and has tokens in it that make no sense. -/
def motley : String :=
  "bckgr ] fd x fd -0 to f bckgr end bckgr to seth 5e-324 end ] f nothing bckgr repeat"

def motleyTree : FileTree :=
  FileTree.empty.insert ["motley"] (.file motley.toUTF8)

/-- What the program prints for the script stands in a second file. -/
def transcriptTree : FileTree :=
  motleyTree.insert ["transcript"] (.file (Trace.run motleyTree ["motley"]).output.toUTF8)

/-- Some commands of the script: painting with a bracket and a word of the language, going a
negative zero far, and turning by the least positive number. -/
def motleyCommands : List Command :=
  [.background "]", .forward (Float.ofBits 0x8000000000000000), .background "to",
   .setHeading (Float.ofBits 1)]

theorem transcript_is_fixpoint_motley :
    (∀ c ∈ motleyCommands, c.IsWritten) ∧
      (Program.parse (Trace.unlines (motleyCommands.map Command.text))).record
        .standard .standard = (motleyCommands.toArray, ⟨[], [], false⟩) ∧
      Trace.run transcriptTree ["transcript"] = Trace.run motleyTree ["motley"] := by
  obtain ⟨hreplay, -, htrace⟩ := transcript_is_fixpoint
  have hwritten : ∀ c ∈ motleyCommands, c.IsWritten := by
    have hcolours : Token.IsWritten ⟨"]"⟩ ∧ Token.IsWritten ⟨"to"⟩ := by decide
    have hnumbers : Binary64.magnitude (Float.ofBits 0x8000000000000000) < Binary64.infinity ∧
        Binary64.magnitude (Float.ofBits 1) < Binary64.infinity := by decide +kernel
    simpa [motleyCommands, Command.IsWritten] using
      ⟨hcolours.1, hnumbers.1, hcolours.2, hnumbers.2⟩
  have hsource : Script.textOf (motleyTree.read "motley") = .ok motley := by
    have hread : motleyTree.read "motley" = .ok motley.toUTF8 := rfl
    rw [hread]
    exact textOf_toUTF8 motley
  have hread : transcriptTree.read "transcript" =
      .ok (Trace.run motleyTree ["motley"]).output.toUTF8 := rfl
  exact ⟨hwritten, hreplay _ hwritten, htrace motleyTree transcriptTree ["motley"]
    ["transcript"] "motley" "transcript" motley false (by decide +kernel) hsource
    (by decide +kernel) hread⟩

end Transcript

end TurtleScript
