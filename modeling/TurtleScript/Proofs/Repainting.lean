import TurtleScript.Proofs.Interpreter.Correspondence

/-!
Who supplies the colour of a background. Either it is the word of the script that follows the
keyword, or a primitive of the table paints by itself, with a colour of its own. A record of the
commands does not tell these apart, since a script may well have the word that a primitive paints
with.

The same script under a table with other colours does: a background whose colour changes with the
table is the table's own. So what a script gives is written down as a list in which each command
says who supplies it, from which the record under every table with other colours can be read. To find
the list, it is enough to run the script with colours that are too long to be words of it.
-/

namespace TurtleScript

namespace Command

/-- A command with another word for its colour. -/
def rename (f : String → String) : Command → Command
  | background colour => background (f colour)
  | command => command

theorem rename_id (command : Command) : command.rename id = command := by
  cases command <;> rfl

end Command

namespace Action

/-- Commands that an action can give. -/
def Gives : Action → Command → Prop
  | plain command, given => given = command
  | numeric make, given => ∃ x, given = make x

/-- An action that paints with other colours. -/
def repaint (g : String → String) : Action → Action
  | plain command => plain (command.rename g)
  | numeric make => numeric fun x => (make x).rename g

theorem repaint_id (action : Action) : action.repaint id = action := by
  cases action <;> simp [repaint, Command.rename_id]

theorem arity_repaint (g : String → String) (action : Action) :
    (action.repaint g).arity = action.arity := by
  cases action <;> rfl

end Action

namespace CommandTable

/-- Commands that a primitive of a table can give. -/
def Gives (table : CommandTable) (command : Command) : Prop :=
  ∃ name action, table.find? name = some action ∧ action.Gives command

/-- A colour that a primitive of a table paints with by itself. It is no word of any script. -/
def Paints (table : CommandTable) (colour : String) : Prop :=
  table.Gives (.background colour)

/-- A table whose primitives paint with other colours. -/
def repaint (g : String → String) (table : CommandTable) : CommandTable :=
  ⟨table.rows.map fun row => (row.1, row.2.repaint g)⟩

variable {table : CommandTable} {name : String} {g : String → String}

theorem repaint_id (table : CommandTable) : table.repaint id = table := by
  simp [repaint, Action.repaint_id]

theorem find?_repaint (g : String → String) (table : CommandTable) (name : String) :
    (table.repaint g).find? name = (table.find? name).map (Action.repaint g) := by
  obtain ⟨rows⟩ := table
  change (rows.map fun row => (row.1, row.2.repaint g)).lookup name =
    (rows.lookup name).map (Action.repaint g)
  induction rows with
  | nil => rfl
  | cons row rows ih =>
      rw [List.map_cons, List.lookup_cons, List.lookup_cons, ih]
      cases name == row.1 <;> rfl

theorem arity_find?_repaint (g : String → String) (table : CommandTable) (name : String) :
    ((table.repaint g).find? name).map Action.arity = (table.find? name).map Action.arity := by
  rw [find?_repaint, Option.map_map]
  exact congrArg (Option.map · (table.find? name)) (funext (Action.arity_repaint g))

theorem contains_repaint (g : String → String) (table : CommandTable) (name : String) :
    (table.repaint g).contains name = table.contains name := by
  rw [contains, find?_repaint, Option.isSome_map, contains]

theorem find?_of_repaint_plain {command : Command}
    (h : (table.repaint g).find? name = some (.plain command)) :
    ∃ own, table.find? name = some (.plain own) ∧ own.rename g = command := by
  rw [find?_repaint, Option.map_eq_some_iff] at h
  obtain ⟨action, haction, hrepaint⟩ := h
  cases action with
  | plain own => exact ⟨own, haction, Action.plain.inj hrepaint⟩
  | numeric make => cases hrepaint

theorem find?_of_repaint_numeric {make : Float → Command}
    (h : (table.repaint g).find? name = some (.numeric make)) :
    ∃ own, table.find? name = some (.numeric own) ∧ ∀ x, (own x).rename g = make x := by
  rw [find?_repaint, Option.map_eq_some_iff] at h
  obtain ⟨action, haction, hrepaint⟩ := h
  cases action with
  | plain command => cases hrepaint
  | numeric own => exact ⟨own, haction, congrFun (Action.numeric.inj hrepaint)⟩

end CommandTable

/-- A command and who supplies it: a background with a word of the script, or a command of the
language or the table as it is. -/
inductive Given where
  | painted (word : String)
  | own (command : Command)

namespace Given

def command : Given → Command
  | painted word => .background word
  | own command => command

/-- The same with another word of the script. -/
def rename (f : String → String) : Given → Given
  | painted word => painted (f word)
  | own command => own command

/-- The same with another colour of the table. -/
def repaint (g : String → String) : Given → Given
  | painted word => painted word
  | own command => own (command.rename g)

/-- What a script and a table can supply. -/
def From (tokens : Array Token) (table : CommandTable) : Given → Prop
  | painted word => ⟨word⟩ ∈ tokens
  | own command => command = .save ∨ table.Gives command

theorem rename_renameWord_id (given : Given) : given.rename (Token.renameWord id) = given := by
  cases given <;> rfl

theorem repaint_id (given : Given) : given.repaint id = given := by
  cases given with
  | painted word => rfl
  | own command => exact congrArg own command.rename_id

/-- A word of the script is renamed as the whole command is, unless the command is painted by the
table with a colour that the renaming would change. -/
theorem command_rename {tokens : Array Token} {table : CommandTable} {f : String → String}
    {given : Given} (h : given.From tokens table)
    (htable : ∀ colour, table.Paints colour → f colour = colour) :
    (given.rename f).command = given.command.rename f := by
  cases given with
  | painted word => rfl
  | own command =>
      cases command with
      | background colour =>
          have hpaints : table.Paints colour := h.resolve_left Command.noConfusion
          exact congrArg Command.background (htable colour hpaints).symm
      | _ => rfl

/-- A colour that is longer than any word of a certain length. -/
def mark (width : Nat) (colour : String) : String :=
  String.ofList (List.replicate width '*' ++ colour.toList)

/-- Who supplies a command of a table whose colours are marked. -/
def unmark (width : Nat) : Command → Given
  | .background colour =>
      if colour.toList.length < width then .painted colour
      else .own (.background (String.ofList (colour.toList.drop width)))
  | command => .own command

theorem unmark_of_length_lt {width : Nat} {word : String} (h : word.toList.length < width) :
    unmark width (.background word) = .painted word := by
  rw [unmark, if_pos h]

theorem unmark_rename_mark (width : Nat) (command : Command) :
    unmark width (command.rename (mark width)) = .own command := by
  cases command with
  | background colour =>
      have hlength : ¬ (mark width colour).toList.length < width := by
        simp [mark]
      rw [Command.rename, unmark, if_neg hlength]
      simp [mark]
  | _ => rfl

/-- What a script supplies is told by its command under a table with marked colours. -/
theorem unmark_command {tokens : Array Token} {table : CommandTable} {width : Nat} {given : Given}
    (h : given.From tokens table)
    (hwidth : ∀ token ∈ tokens, token.text.toList.length < width) :
    unmark width (given.repaint (mark width)).command = given := by
  cases given with
  | painted word => exact unmark_of_length_lt (hwidth ⟨word⟩ h)
  | own command => exact unmark_rename_mark width command

/-- All words of a script are shorter than some length. -/
theorem exists_width (tokens : Array Token) :
    ∃ width, ∀ token ∈ tokens, token.text.toList.length < width := by
  let lengths : List Nat := tokens.toList.map fun token => token.text.toList.length
  refine ⟨lengths.max?.getD 0 + 1, ?_⟩
  intro token htoken
  apply Nat.lt_succ_of_le
  apply List.le_max?_getD_of_mem
  exact List.mem_map_of_mem (Array.mem_toList_iff.mpr htoken)

end Given

end TurtleScript
