import TurtleScript.Program
import TurtleScript.Proofs.Interpreter.Agreement
import TurtleScript.Proofs.Structured.Refinement

/-!
Text that is put after a structured script does not change what the script does. The interpreter
looks ahead of its cursor, jumps to brackets and runs procedures up to an `end`, but in a structured
script each of these finds what it looks for in the script itself. So the run over the longer text
comes to the end of the script with the session that the script alone leaves behind, and goes on
from there.

The one thing that could look past the script is a primitive at its very end that takes a number
and has none.
-/

namespace TurtleScript

universe u

namespace Structured

/-- Whether every primitive at the top level of a script has the number it takes. In a body it need
not, since what stands after the body is part of the script. -/
def Script.IsComplete (script : Script) : Prop :=
  ∀ name, Item.statement (.bare name) ∉ script

/-- Only a primitive without its number looks at what stands after it. -/
theorem Statement.wellFormed_next {table : CommandTable} {st : Statement}
    (hcomplete : ∀ name, st ≠ .bare name) {next next' : Option Token}
    (h : st.WellFormed table next) : st.WellFormed table next' := by
  cases st with
  | bare name => exact absurd rfl (hcomplete name)
  | plain name => exact h
  | numeric name argument => exact h
  | save => exact h
  | paint colour => exact h
  | loop count body => exact h
  | word name => exact h

theorem Statement.meaning_next {table : CommandTable} {library : Library}
    {below : Option BodyMeaning} {st : Statement} (hcomplete : ∀ name, st ≠ .bare name)
    (next next' : Option Token) :
    st.meaning table library below next = st.meaning table library below next' := by
  cases st with
  | bare name => exact absurd rfl (hcomplete name)
  | plain name => rfl
  | numeric name argument => rfl
  | save => rfl
  | paint colour => rfl
  | loop count body => rfl
  | word name => rfl

/-- The library after a definition has been passed. -/
def Library.define (library : Library) (table : CommandTable) (name : Token)
    (body : List Statement) : Library :=
  match refusal? table library name with
  | some _ => library
  | none => (name.text, body) :: library

section

variable {σ : Type u} {I : Interpreter σ} {library : Library} {index : Nat} {s : Session σ}
  {rest : List Token}

theorem stands_definition {name : Token} {body : List Statement}
    (hbody : BlockWellFormed I.table (some Keyword.finish.token) body)
    (h : I.ahead index = (Item.definition name body).tokens ++ rest) :
    Stands I Keyword.finish.token (index + 2) body := by
  have hhead : I.ahead index = [Keyword.define.token, name] ++
      (blockTokens body ++ Keyword.finish.token :: rest) := by
    simpa [Item.tokens] using h
  exact ⟨hbody, rest, Interpreter.ahead_of_append hhead⟩

theorem shelved_define (hshelved : Shelved I s.procedures library) (name : Token) {start : Nat}
    {body : List Statement} (hstands : Stands I Keyword.finish.token start body) :
    Shelved I (s.define I.table name start).procedures (library.define I.table name body) := by
  rw [define_eq hshelved, Library.define]
  cases hrefusal : refusal? I.table library name with
  | some reason => exact hshelved
  | none => exact .cons ⟨rfl, find?_of_refusal?_eq_none hrefusal, hstands⟩ hshelved

/-- What something does to a session is a matter of the turtle alone. -/
theorem after_congr {J : Interpreter σ} (hobey : J.obey = I.obey) (outcome : Outcome) :
    after J s outcome = after I s outcome := by
  rw [after, after, hobey]

/-- Over two texts that go on with the same structured script, two runs come to its end with the
same session. -/
theorem exists_walk_script {J : Interpreter σ} (htable : J.table = I.table)
    (hobey : J.obey = I.obey) (hlimit : I.limits.steps = none) (hlimit' : J.limits.steps = none)
    (room : Nat) {script : Script} (hcomplete : script.IsComplete) {next : Option Token}
    (hscript : script.WellFormed I.table next) (hshelved : Shelved I s.procedures library)
    (hshelved' : Shelved J s.procedures library) {rest' : List Token}
    (h : I.ahead index = script.tokens ++ rest) (h' : J.ahead index = script.tokens ++ rest') :
    ∃ t,
      I.walk (I.below room) .top index false s =
        I.walk (I.below room) .top (index + script.tokens.length) false t ∧
      J.walk (J.below room) .top index false s =
        J.walk (J.below room) .top (index + script.tokens.length) false t := by
  induction script generalizing index s library with
  | nil => exact ⟨s, rfl, rfl⟩
  | cons item script ih =>
      have hitems : Script.IsComplete script := fun name hmem => hcomplete name (by simp [hmem])
      have hsplit : I.ahead index = item.tokens ++ (Script.tokens script ++ rest) := by
        simpa [Script.tokens] using h
      have hsplit' : J.ahead index = item.tokens ++ (Script.tokens script ++ rest') := by
        simpa [Script.tokens] using h'
      have hlength : index + (Script.tokens (item :: script)).length =
          index + item.tokens.length + (Script.tokens script).length := by
        simp [Script.tokens, Nat.add_assoc]
      have hrest := Interpreter.ahead_of_append hsplit
      have hrest' := Interpreter.ahead_of_append hsplit'
      rw [hlength]
      cases item with
      | definition name body =>
          obtain ⟨hbody, hscript⟩ := hscript
          have hbody' : BlockWellFormed J.table (some Keyword.finish.token) body := htable ▸ hbody
          have hadded := shelved_define hshelved name (stands_definition hbody hsplit)
          have hadded' := shelved_define hshelved' name (stands_definition hbody' hsplit')
          rw [htable] at hadded'
          rw [walk_definition hlimit hbody hsplit, walk_definition hlimit' hbody' hsplit', htable]
          exact ih hitems hscript hadded hadded' hrest hrest'
      | statement st =>
          obtain ⟨hst, hscript⟩ := hscript
          have hnumber : ∀ name, st ≠ .bare name := by
            rintro name rfl
            exact hcomplete name (by simp)
          have hst' : st.WellFormed J.table (Script.tokens script ++ rest').head? :=
            htable ▸ Statement.wellFormed_next hnumber hst
          rw [walk_statement hlimit (follows_below hlimit library room) hshelved
              (Statement.wellFormed_next hnumber hst) hsplit,
            walk_statement hlimit' (follows_below hlimit' library room) hshelved' hst' hsplit',
            after_congr hobey, htable,
            Statement.meaning_next hnumber (Script.tokens script ++ rest').head?
              (Script.tokens script ++ rest).head?]
          exact ih hitems hscript hshelved hshelved' hrest hrest'

end

/-- The commands written down and the reasons noted in one session are the first ones of another. -/
def Continues (s t : Session (Array Command)) : Prop :=
  s.turtle.toList <+: t.turtle.toList ∧ s.skipped.toList <+: t.skipped.toList

theorem Continues.skip {s t : Session (Array Command)} (h : Continues s t) (reason : Skip) :
    Continues s (t.skip reason) := by
  refine ⟨h.1, ?_⟩
  change _ <+: (t.skipped.push reason).toList
  rw [Array.toList_push]
  exact h.2.trans (List.prefix_append _ _)

/-- A run only adds to what it begins with. -/
theorem keeps_continues {I : Interpreter (Array Command)} (hpush : I.obey = Array.push)
    (s : Session (Array Command)) : I.clocked.Keeps (Continues s) where
  tick h _ := h
  give := by
    intro t command h _ _
    refine ⟨?_, h.2⟩
    change _ <+: (I.obey t.turtle command).toList
    rw [hpush, Array.toList_push]
    exact h.1.trans (List.prefix_append _ _)
  skip reason h := h.skip reason
  cut h _ := h
  define h _ _ _ := Session.define_elim h.skip fun _ => h

/-- On every turtle, the run over a structured script and more goes on from where the script alone
comes to. -/
theorem run_tokens_append {σ : Type u} (table : CommandTable) (depth : Nat)
    (obey : σ → Command → σ) {script : Script} (hcomplete : script.IsComplete)
    (hscript : script.WellFormed table none) (more : List Token) (turtle : σ) :
    let alone : Interpreter σ := ⟨script.tokens.toArray, table, ⟨depth, none⟩, obey⟩
    let whole : Interpreter σ := ⟨(script.tokens ++ more).toArray, table, ⟨depth, none⟩, obey⟩
    whole.run .top 0 (.new turtle) =
      whole.run .top script.tokens.length (alone.run .top 0 (.new turtle)).2 := by
  intro alone whole
  have hahead : alone.ahead 0 = script.tokens ++ [] := by
    simp [Interpreter.ahead, alone]
  have hahead' : whole.ahead 0 = script.tokens ++ more := by
    simp [Interpreter.ahead, whole]
  obtain ⟨t, hwalk, hwalk'⟩ := exists_walk_script (I := alone) (J := whole) (s := .new turtle) rfl
    rfl rfl rfl depth hcomplete hscript .nil .nil hahead hahead'
  have hsize : alone.tokens.size ≤ 0 + script.tokens.length := by simp [alone]
  rw [Interpreter.walk_of_size_le hsize] at hwalk
  rw [Nat.zero_add] at hwalk'
  have halone : alone.run .top 0 (.new turtle) = (alone.tokens.size, t) :=
    (Interpreter.runWithin_eq depth 0).trans hwalk
  calc
    whole.run .top 0 (.new turtle)
      = whole.walk (whole.below depth) .top 0 false (.new turtle) :=
        Interpreter.runWithin_eq depth 0
    _ = whole.walk (whole.below depth) .top script.tokens.length false t := hwalk'
    _ = whole.run .top script.tokens.length t :=
        (Interpreter.runWithin_eq depth script.tokens.length).symm
    _ = whole.run .top script.tokens.length (alone.run .top 0 (.new turtle)).2 := by rw [halone]

/-- Text after a structured script never changes what the script did. The run over both comes to
the end of the script in the session that the script alone leaves behind, and goes on from there;
so the commands of the script are its first commands, and the reasons noted its first reasons. -/
theorem run_append (table : CommandTable) (depth : Nat) {script : Script}
    (hcomplete : script.IsComplete) (hscript : script.WellFormed table none) (more : List Token) :
    (∀ {σ : Type u} (obey : σ → Command → σ) (turtle : σ),
      let alone : Interpreter σ := ⟨script.tokens.toArray, table, ⟨depth, none⟩, obey⟩
      let whole : Interpreter σ := ⟨(script.tokens ++ more).toArray, table, ⟨depth, none⟩, obey⟩
      whole.run .top 0 (.new turtle) =
        whole.run .top script.tokens.length (alone.run .top 0 (.new turtle)).2) ∧
      let alone := (Program.mk script.tokens.toArray).record table ⟨depth, none⟩
      let whole := (Program.mk (script.tokens ++ more).toArray).record table ⟨depth, none⟩
      alone.1.toList <+: whole.1.toList ∧ alone.2.skipped <+: whole.2.skipped := by
  refine ⟨?_, ?_⟩
  · intro σ obey turtle
    exact run_tokens_append table depth obey hcomplete hscript more turtle
  · let alone : Interpreter (Array Command) :=
      ⟨script.tokens.toArray, table, ⟨depth, none⟩, Array.push⟩
    let whole : Interpreter (Array Command) :=
      ⟨(script.tokens ++ more).toArray, table, ⟨depth, none⟩, Array.push⟩
    have hrun : whole.run .top 0 (.new #[]) =
        whole.run .top script.tokens.length (alone.run .top 0 (.new #[])).2 :=
      run_tokens_append table depth Array.push hcomplete hscript more #[]
    have hcontinues : Continues (alone.run .top 0 (.new #[])).2
        (whole.clocked.run .top script.tokens.length (alone.run .top 0 (.new #[])).2).2 :=
      (keeps_continues rfl _).run .top script.tokens.length ⟨List.prefix_rfl, List.prefix_rfl⟩
    rw [whole.clocked_run, ← hrun] at hcontinues
    exact hcontinues

/-- A procedure with a loop in it, a call of it, and a colour that is a keyword. -/
def painted : Script :=
  [.definition ⟨"p"⟩ [.plain ⟨"pu"⟩, .loop ⟨"2"⟩ [.word ⟨"q"⟩, .save]],
   .statement (.word ⟨"p"⟩),
   .statement (.paint ⟨"to"⟩)]

/-- Text that would end a loop, a definition or a number if the script left one open, and defines
the procedure that the script lacked. -/
def intrusion : List Token :=
  [.closing, ⟨"1"⟩, ⟨"end"⟩, ⟨"to"⟩, ⟨"q"⟩, ⟨"home"⟩, ⟨"end"⟩, ⟨"p"⟩]

theorem run_append_painted :
    painted.IsComplete ∧ painted.WellFormed .standard none ∧
      ((Program.mk painted.tokens.toArray).record .standard ⟨2, none⟩).1.toList <+:
        ((Program.mk (painted.tokens ++ intrusion).toArray).record .standard
          ⟨2, none⟩).1.toList := by
  have hcomplete : painted.IsComplete := by
    intro name hmem
    simp [painted] at hmem
  have hloop : (Statement.loop ⟨"2"⟩ [.word ⟨"q"⟩, .save]).WellFormed .standard
      (some Keyword.finish.token) := ⟨by decide, ⟨by decide, rfl⟩, trivial, trivial⟩
  have hcolour : IsOperand ⟨"to"⟩ := by decide
  have hscript : painted.WellFormed .standard none :=
    ⟨⟨⟨by decide, _, rfl⟩, hloop, trivial⟩, ⟨by decide, rfl⟩, hcolour, trivial⟩
  exact ⟨hcomplete, hscript, (run_append.{0} .standard 2 hcomplete hscript intrusion).2.1⟩

end Structured

end TurtleScript
