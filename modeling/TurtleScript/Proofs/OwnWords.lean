import Mathlib.Data.List.Forall2
import TurtleScript.Proofs.Interpreter.Agreement

/-!
The words that the language keeps for itself stay its own under every command table. A table may
have rows for keywords and brackets, but the role of a token is settled before the table is looked
at, so such rows are never run. Neither are rows for words that the script does not have.

Two tables that agree on the other words of a script therefore give the same run. There is one place
where a row for a reserved word shows: a definition under such a word is refused for the row if there
is one, and for the word itself otherwise. It is refused either way.
-/

namespace TurtleScript

universe u

namespace OwnWords

/-- Tables with the same action, or both with none, for every word of a script that is neither a
keyword nor a bracket. -/
def AgreeOn (tokens : Array Token) (table table' : CommandTable) : Prop :=
  ∀ token ∈ tokens, token.isReserved = false → table'.find? token.text = table.find? token.text

/-- Rows for reserved words, and for words that the script does not have, make no difference. -/
theorem agreeOn_append {tokens : Array Token} {rows more : List (String × Action)}
    (h : ∀ row ∈ more, ∀ token ∈ tokens, token.text = row.1 → token.isReserved = true) :
    AgreeOn tokens (.ofRows rows) (.ofRows (rows ++ more)) := by
  intro token htoken hname
  have hnone : more.reverse.lookup token.text = none := by
    rw [List.lookup_eq_none_iff]
    intro row hrow
    rw [bne_iff_ne]
    intro hsame
    have hreserved := h row (List.mem_reverse.mp hrow) token htoken hsame
    rw [hname] at hreserved
    cases hreserved
  unfold CommandTable.ofRows CommandTable.find?
  rw [List.reverse_append, List.lookup_append, hnone, Option.none_or]

/-- Reasons that are noted at the same place of a run with one table and with another. They differ
only where one table has a row for a reserved word and the other has none. -/
inductive Restated (table table' : CommandTable) : Skip → Skip → Prop
  | same (reason : Skip) : Restated table table' reason reason
  | withoutRow {name : Token} (hreserved : name.isReserved = true)
      (hrow : table.contains name.text = true) (hnone : table'.contains name.text = false) :
      Restated table table' (.shadowsPrimitive name.text) (.reservedName name.text)
  | withRow {name : Token} (hreserved : name.isReserved = true)
      (hnone : table.contains name.text = false) (hrow : table'.contains name.text = true) :
      Restated table table' (.reservedName name.text) (.shadowsPrimitive name.text)

/-- Sessions of a script under two tables. -/
structure Alike {σ : Type u} (table table' : CommandTable) (s t : Session σ) : Prop where
  turtle : t.turtle = s.turtle
  procedures : t.procedures = s.procedures
  steps : t.steps = s.steps
  skipped : List.Forall₂ (Restated table table') s.skipped.toList t.skipped.toList
  truncated : t.truncated = s.truncated

section

variable {σ : Type u} {table table' : CommandTable} {tokens : Array Token} {s t : Session σ}
  {name : Token}

theorem alike_new (turtle : σ) : Alike table table' (.new turtle) (.new turtle) where
  turtle := rfl
  procedures := rfl
  steps := rfl
  skipped := .nil
  truncated := rfl

theorem Alike.exhausted (h : Alike table table' s t) (limit : Option Nat) :
    t.exhausted limit = s.exhausted limit := by
  unfold Session.exhausted
  rw [h.steps]

theorem Alike.tick (h : Alike table table' s t) : Alike table table' s.tick t.tick :=
  { h with steps := congrArg (· + 1) h.steps }

theorem Alike.skip (h : Alike table table' s t) {reason reason' : Skip}
    (hreason : Restated table table' reason reason') :
    Alike table table' (s.skip reason) (t.skip reason') := by
  refine { h with skipped := ?_ }
  change List.Forall₂ _ (s.skipped.push reason).toList (t.skipped.push reason').toList
  rw [Array.toList_push, Array.toList_push]
  exact List.rel_append h.skipped (.cons hreason .nil)

/-- A definition under a reserved word is refused, whether there is a row for the word or not. -/
theorem define_of_reserved (h : name.isReserved = true) (body : Nat) :
    s.define table name body =
      s.skip (if table.contains name.text then .shadowsPrimitive name.text
        else .reservedName name.text) := by
  unfold Session.define Procedures.define
  rw [if_pos h]
  split_ifs <;> rfl

theorem restated_of_reserved (h : name.isReserved = true) :
    Restated table table'
      (if table.contains name.text then .shadowsPrimitive name.text else .reservedName name.text)
      (if table'.contains name.text then .shadowsPrimitive name.text
        else .reservedName name.text) := by
  split_ifs with hrow hrow' hrow'
  · exact .same _
  · exact .withoutRow h hrow (Bool.eq_false_iff.mpr hrow')
  · exact .withRow h (Bool.eq_false_iff.mpr hrow) hrow'
  · exact .same _

/-- A definition has the same effect under both tables. -/
theorem Alike.define (h : Alike table table' s t) (htables : AgreeOn tokens table table')
    (hname : name ∈ tokens) (body : Nat) :
    Alike table table' (s.define table name body) (t.define table' name body) := by
  cases hreserved : name.isReserved with
  | true =>
      rw [define_of_reserved hreserved, define_of_reserved hreserved]
      exact h.skip (restated_of_reserved hreserved)
  | false =>
      have hrows : table'.contains name.text = table.contains name.text :=
        congrArg Option.isSome (htables name hname hreserved)
      unfold Session.define Procedures.define
      rw [hrows, h.procedures]
      split_ifs
      · exact h.skip (.same _)
      · exact h.skip (.same _)
      · exact h.skip (.same _)
      · exact { h with procedures := rfl }

/-- The runs of a script under two tables correspond token by token. -/
theorem correspondence_tables (I : Interpreter σ) (htables : AgreeOn I.tokens I.table table') :
    Clocked.Correspondence I.clocked (Interpreter.clocked { I with table := table' }) id
      (Alike I.table table') (fun _ _ => False) where
  tokens := (Array.map_id _).symm
  opening := rfl
  role _ := rfl
  count _ := rfl
  number _ := rfl
  action hmem hname :=
    congrArg (Option.map Action.arity) (htables _ hmem (Token.role_eq_name_iff.mp hname))
  procedure := by
    intro s t token hst _ _
    rw [hst.procedures]
    rfl
  running hst hrunning := (hst.exhausted _).trans hrunning
  cut hst hexhausted := Or.inl ⟨(hst.exhausted _).trans hexhausted, { hst with truncated := rfl }⟩
  tick hst _ := hst.tick
  give := by
    intro s t command command' hst _ hcommand
    have hrows (token : Token) (hmem : token ∈ I.tokens) (hname : token.role = .name) :
        table'.find? token.text = I.table.find? token.text :=
      htables token hmem (Token.role_eq_name_iff.mp hname)
    obtain ⟨rfl, -⟩ := Clocked.gives_of_counterpart hrows hcommand
    exact { hst.tick with turtle := congrArg (I.obey · command') hst.turtle }
  skip reason hst := by
    rw [reason.rename_id]
    exact hst.skip (.same reason)
  define hst _ hname _ := hst.define htables (Array.mem_of_getElem? hname) _
  left _ := ⟨False.elim, False.elim⟩
  right _ := ⟨False.elim, False.elim⟩

/-- Every frame stops at the same index under both tables, and leaves sessions that are alike. -/
theorem run_tables (I : Interpreter σ) (htables : AgreeOn I.tokens I.table table') (frame : Frame)
    (start : Nat) (hst : Alike I.table table' s t) :
    let J : Interpreter σ := { I with table := table' }
    (J.run frame start t).1 = (I.run frame start s).1 ∧
      Alike I.table table' (I.run frame start s).2 (J.run frame start t).2 := by
  intro J
  have hagree : Clocked.Agree (Alike I.table table') (fun _ _ => False)
      (I.clocked.run frame start s) (J.clocked.run frame start t) :=
    (correspondence_tables I htables).run rfl hst
  rw [Interpreter.clocked_run, Interpreter.clocked_run] at hagree
  rcases hagree with ⟨hstop, hsession⟩ | hparted
  · exact ⟨hstop.symm, hsession⟩
  · exact hparted.elim

end

/-- A table cannot capture the language's own words. Two tables that agree on the words of a script
other than keywords and brackets, whatever else they have rows for, give the same commands in the
same order, the same procedures with the same bodies, the same cut, and the same reasons in the same
order, up to the reason why a definition under a keyword or bracket is refused. -/
theorem record_eq_of_agreeOn {p : Program} {table table' : CommandTable}
    (h : AgreeOn p.tokens table table') (limits : Limits) :
    let first := p.record table limits
    let second := p.record table' limits
    second.1 = first.1 ∧
      second.2.procedures = first.2.procedures ∧
      (p.session table' limits).procedures = (p.session table limits).procedures ∧
      second.2.truncated = first.2.truncated ∧
      List.Forall₂ (Restated table table') first.2.skipped second.2.skipped := by
  intro first second
  let I : Interpreter (Array Command) := ⟨p.tokens, table, limits, Array.push⟩
  obtain ⟨-, hsession⟩ := run_tables I h .top 0 (alike_new #[])
  have hprocedures : (p.session table' limits).procedures = (p.session table limits).procedures :=
    hsession.procedures
  exact ⟨hsession.turtle, congrArg Procedures.names hprocedures, hprocedures, hsession.truncated,
    hsession.skipped⟩

/-- A script that uses every word of the language, and defines some of them. -/
def selfish : Program :=
  ⟨#[⟨"to"⟩, ⟨"repeat"⟩, ⟨"pu"⟩, ⟨"end"⟩, ⟨"to"⟩, ⟨"zig"⟩, ⟨"fd"⟩, ⟨"1"⟩, ⟨"end"⟩, ⟨"repeat"⟩, ⟨"2"⟩,
     .opening, ⟨"zig"⟩, .closing, ⟨"save"⟩, ⟨"bckgr"⟩, ⟨"red"⟩, ⟨"zag"⟩]⟩

/-- The standard table with a row for every word of the language, and for a word of no script. -/
def greedy : CommandTable :=
  .ofRows (CommandTable.standardRows ++
    [("to", .plain .home), ("end", .plain .home), ("repeat", .plain .home),
     ("save", .plain .penUp), ("bckgr", .numeric .forward), ("[", .plain .home),
     ("]", .plain .home), ("elsewhere", .plain .home)])

theorem record_eq_of_agreeOn_greedy :
    let first := selfish.record .standard .standard
    let second := selfish.record greedy .standard
    AgreeOn selfish.tokens .standard greedy ∧
      second.1.toList = [.forward 1, .forward 1, .save, .background "red"] ∧
      second.2.procedures = first.2.procedures ∧
      first.2.skipped = [.reservedName "repeat", .unknownCommand "zag"] ∧
      second.2.skipped = [.shadowsPrimitive "repeat", .unknownCommand "zag"] ∧
      List.Forall₂ (Restated .standard greedy) first.2.skipped second.2.skipped := by
  intro first second
  have htables : AgreeOn selfish.tokens .standard greedy := agreeOn_append (by decide)
  obtain ⟨hcommands, hprocedures, -, -, hskipped⟩ := record_eq_of_agreeOn htables .standard
  have hfirst : first.1.toList = [.forward 1, .forward 1, .save, .background "red"] := by
    with_unfolding_all rfl
  refine ⟨htables, ?_, hprocedures, by decide +kernel, by decide +kernel, hskipped⟩
  exact (congrArg Array.toList hcommands).trans hfirst

end OwnWords

end TurtleScript
