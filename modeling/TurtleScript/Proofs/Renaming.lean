import Mathlib.Tactic.SplitIfs
import TurtleScript.Proofs.Repainting
import TurtleScript.Proofs.Text.ByteOrder

/-!
Words that mean nothing by themselves can be exchanged for others. Names of procedures, colours,
counts and unknown words are told apart by where they stand and by comparing them, so a script in
which such words are renamed, no two of them to the same word, runs as before: it gives the same
commands with the renamed word for each colour that it supplies, steps over the same tokens and has
the renamed procedures. A colour that the table paints with by itself is no word of the script, and
stays.

The two runs are followed side by side. Their sessions differ by the renaming and by nothing else;
a renamed procedure is found under its new name because no other name was renamed to it.
-/

namespace TurtleScript

universe u v

namespace Procedures

/-- Procedures under other names. -/
def rename (f : String → String) (procedures : Procedures) : Procedures :=
  ⟨procedures.bodies.map fun entry => (f entry.1, entry.2)⟩

theorem find?_rename {f : String → String} (h : Function.Injective f) (procedures : Procedures)
    (name : String) : (procedures.rename f).find? (f name) = procedures.find? name := by
  obtain ⟨bodies⟩ := procedures
  change (bodies.map fun entry => (f entry.1, entry.2)).lookup (f name) = bodies.lookup name
  induction bodies with
  | nil => rfl
  | cons entry bodies ih =>
      have hsame : (f name == f entry.1) = (name == entry.1) := by
        rw [Bool.eq_iff_iff, beq_iff_eq, beq_iff_eq]
        exact h.eq_iff
      rw [List.map_cons, List.lookup_cons, List.lookup_cons, hsame, ih]

theorem names_rename (f : String → String) (procedures : Procedures) :
    (procedures.rename f).names = (procedures.names.map f).mergeSort := by
  have hnames : (procedures.rename f).bodies.map Prod.fst =
      (procedures.bodies.map Prod.fst).map f := by
    simp [rename]
  rw [names, names, hnames]
  exact Text.mergeSort_eq_of_perm ((List.mergeSort_perm _ _).map f).symm

end Procedures

namespace Program

/-- A program with other words for its tokens. -/
def rename (f : Token → Token) (p : Program) : Program :=
  ⟨p.tokens.map f⟩

theorem rename_id (p : Program) : p.rename id = p := by
  rw [rename, Array.map_id]

end Program

namespace Renaming

open Token (renameWord)

/-- A renaming of words that spares what scripts for a table are written in: the words of the
language, the names of the primitives, and what each word counts. No two words get the same new
one. -/
structure SparesLanguage (table : CommandTable) (f : Token → Token) : Prop where
  injective : Function.Injective f
  keyword : ∀ k : Keyword, f k.token = k.token
  opening : f .opening = .opening
  closing : f .closing = .closing
  primitive : ∀ name, table.contains name = true → f ⟨name⟩ = ⟨name⟩
  count : ∀ token, Integer.leading? (f token).text = Integer.leading? token.text

/-- A renaming of the words that are free in scripts for a table. It also leaves every number as it
is, with its sign even if it is zero. -/
structure IsRenaming (table : CommandTable) (f : Token → Token) : Prop extends
    SparesLanguage table f where
  number : ∀ token, Number.finite? (f token).text = Number.finite? token.text

variable {table : CommandTable} {f : Token → Token} {token : Token}

theorem IsRenaming.renameWord_injective (h : IsRenaming table f) :
    Function.Injective (renameWord f) := by
  intro a b hsame
  have htokens : f ⟨a⟩ = f ⟨b⟩ := congrArg Token.mk hsame
  exact congrArg Token.text (h.injective htokens)

/-- No word is renamed to one that stays as it is. -/
theorem IsRenaming.fixed_of_image (h : IsRenaming table f) (hfixed : f (f token) = f token) :
    f token = token :=
  h.injective hfixed

theorem IsRenaming.fixed_of_reserved (h : IsRenaming table f) (hrole : token.role ≠ .name) :
    f token = token := by
  cases hkind : token.role with
  | opening =>
      rw [Token.role_eq_opening_iff.mp hkind]
      exact h.opening
  | closing =>
      rw [Token.role_eq_closing_iff.mp hkind]
      exact h.closing
  | keyword k =>
      rw [Token.role_eq_keyword_iff.mp hkind]
      exact h.keyword k
  | name => exact absurd hkind hrole

/-- A renamed token has the role of the old one. -/
theorem IsRenaming.role (h : IsRenaming table f) (token : Token) :
    (f token).role = token.role := by
  by_cases hold : token.role = .name
  · by_cases hnew : (f token).role = .name
    · rw [hold, hnew]
    · rw [h.fixed_of_image (h.fixed_of_reserved hnew)]
  · rw [h.fixed_of_reserved hold]

/-- A renamed token has the action of the old one. -/
theorem IsRenaming.action (h : IsRenaming table f) (token : Token) :
    table.find? (f token).text = table.find? token.text := by
  have hfixed (name : Token) (hname : table.find? name.text ≠ none) : f name = name :=
    h.primitive name.text (Option.isSome_iff_ne_none.mpr hname)
  by_cases hold : table.find? token.text = none
  · by_cases hnew : table.find? (f token).text = none
    · rw [hold, hnew]
    · rw [h.fixed_of_image (hfixed (f token) hnew)]
  · rw [hfixed token hold]

/-- Sessions of a script and of the renamed one, on turtles that are related. -/
structure Renamed {σ : Type u} {τ : Type v} (f : Token → Token) (Q : σ → τ → Prop) (s : Session σ)
    (t : Session τ) : Prop where
  turtle : Q s.turtle t.turtle
  procedures : t.procedures = s.procedures.rename (renameWord f)
  steps : t.steps = s.steps
  skipped : t.skipped = s.skipped.map (Skip.rename (renameWord f))
  truncated : t.truncated = s.truncated

section

variable {σ : Type u} {τ : Type v} {Q : σ → τ → Prop} {s : Session σ} {t : Session τ}

theorem Renamed.exhausted (h : Renamed f Q s t) (limit : Option Nat) :
    t.exhausted limit = s.exhausted limit := by
  unfold Session.exhausted
  rw [h.steps]

theorem Renamed.tick (h : Renamed f Q s t) : Renamed f Q s.tick t.tick :=
  { h with steps := congrArg (· + 1) h.steps }

theorem Renamed.skip (h : Renamed f Q s t) (reason : Skip) :
    Renamed f Q (s.skip reason) (t.skip (reason.rename (renameWord f))) := by
  refine { h with skipped := ?_ }
  change t.skipped.push _ = (s.skipped.push reason).map _
  rw [h.skipped, Array.map_push]

/-- A definition is refused under both names or under none. -/
theorem Renamed.define (h : Renamed f Q s t) (hf : IsRenaming table f) (name : Token)
    (body : Nat) :
    Renamed f Q (s.define table name body) (t.define table (f name) body) := by
  have htable : table.contains (f name).text = table.contains name.text := by
    unfold CommandTable.contains
    rw [hf.action name]
  have hreserved : (f name).isReserved = name.isReserved := by
    unfold Token.isReserved
    rw [hf.role name]
  have hfound : t.procedures.contains (f name).text = s.procedures.contains name.text := by
    unfold Procedures.contains
    rw [h.procedures]
    exact congrArg Option.isSome (s.procedures.find?_rename hf.renameWord_injective name.text)
  unfold Session.define Procedures.define
  rw [htable, hreserved, hfound]
  split_ifs
  · exact h.skip (.shadowsPrimitive name.text)
  · exact h.skip (.reservedName name.text)
  · exact h.skip (.redefined name.text)
  · refine { h with procedures := ?_ }
    simp only [h.procedures]
    rfl

/-- Whether a definition is refused does not depend on the colours of the table. -/
theorem define_repaint (g : String → String) (s : Session σ) (name : Token) (body : Nat) :
    s.define (table.repaint g) name body = s.define table name body := by
  unfold Session.define Procedures.define
  rw [CommandTable.contains_repaint]

/-- A script and the renamed one are run side by side under tables that may paint with different
colours, on turtles that stay related when they are given counterparts. -/
theorem correspondence_rename {tokens : Array Token} (limits : Limits) (obey : σ → Command → σ)
    (obey' : τ → Command → τ) (hf : IsRenaming table f) (g h : String → String)
    (hobey : ∀ x y command command', Q x y →
      Counterpart tokens (table.repaint g) (table.repaint h) f command command' →
      Q (obey x command) (obey' y command')) :
    Clocked.Correspondence (Interpreter.clocked ⟨tokens, table.repaint g, limits, obey⟩)
      (Interpreter.clocked ⟨tokens.map f, table.repaint h, limits, obey'⟩) f (Renamed f Q)
      (fun _ _ => False) where
  tokens := rfl
  opening := hf.opening
  role _ := hf.role _
  count _ := hf.count _
  number _ := hf.number _
  action _ _ := by
    change ((table.repaint h).find? _).map _ = ((table.repaint g).find? _).map _
    rw [CommandTable.arity_find?_repaint, CommandTable.arity_find?_repaint, hf.action]
  procedure := by
    intro s t token hst _ _
    rw [hst.procedures]
    exact s.procedures.find?_rename hf.renameWord_injective token.text
  running hst hrunning := (hst.exhausted _).trans hrunning
  cut hst hexhausted := Or.inl ⟨(hst.exhausted _).trans hexhausted, { hst with truncated := rfl }⟩
  tick hst _ := hst.tick
  give hst _ hcommand := { hst.tick with turtle := hobey _ _ _ _ hst.turtle hcommand }
  skip reason hst := hst.skip reason
  define := by
    intro s t name index hst _ _ _
    change Renamed f Q (s.define (table.repaint g) name _) (t.define (table.repaint h) (f name) _)
    rw [define_repaint, define_repaint]
    exact hst.define hf name _
  left _ := ⟨False.elim, False.elim⟩
  right _ := ⟨False.elim, False.elim⟩

/-- Every frame of the renamed script stops where the same frame of the script stops, and leaves the
renamed session. -/
theorem run_rename {tokens : Array Token} (limits : Limits) (obey : σ → Command → σ)
    (obey' : τ → Command → τ) (hf : IsRenaming table f) (g h : String → String)
    (hobey : ∀ x y command command', Q x y →
      Counterpart tokens (table.repaint g) (table.repaint h) f command command' →
      Q (obey x command) (obey' y command'))
    (frame : Frame) (start : Nat) (hst : Renamed f Q s t) :
    let I : Interpreter σ := ⟨tokens, table.repaint g, limits, obey⟩
    let J : Interpreter τ := ⟨tokens.map f, table.repaint h, limits, obey'⟩
    (I.run frame start s).1 = (J.run frame start t).1 ∧
      Renamed f Q (I.run frame start s).2 (J.run frame start t).2 := by
  intro I J
  have hagree : Clocked.Agree (Renamed f Q) (fun _ _ => False) (I.clocked.run frame start s)
      (J.clocked.run frame start t) :=
    (correspondence_rename limits obey obey' hf g h hobey).run rfl hst
  rw [Interpreter.clocked_run, Interpreter.clocked_run] at hagree
  rcases hagree with hrun | hparted
  · exact hrun
  · exact hparted.elim

theorem renamed_new {x : σ} {y : τ} (h : Q x y) : Renamed f Q (.new x) (.new y) where
  turtle := h
  procedures := rfl
  steps := rfl
  skipped := Array.map_empty.symm
  truncated := rfl

end

/-- Under a table with marked colours, a command tells who supplies it, and so what its counterpart
is under any colours. -/
theorem given_of_counterpart {tokens : Array Token} {width : Nat} {g : String → String}
    {command command' : Command} (hf : IsRenaming table f)
    (hwidth : ∀ token ∈ tokens, token.text.toList.length < width)
    (h : Counterpart tokens (table.repaint (Given.mark width)) (table.repaint g) f command
      command') :
    (Given.unmark width command).From tokens table ∧
      command' =
        (((Given.unmark width command).rename (renameWord f)).repaint g).command := by
  cases h with
  | save => exact ⟨Or.inl rfl, rfl⟩
  | background hcolour =>
      rw [Given.unmark_of_length_lt (hwidth _ hcolour)]
      exact ⟨hcolour, rfl⟩
  | plain _ _ haction haction' =>
      obtain ⟨own, hown, rfl⟩ := CommandTable.find?_of_repaint_plain haction
      obtain ⟨own', hown', rfl⟩ := CommandTable.find?_of_repaint_plain haction'
      rw [hf.action, hown] at hown'
      cases hown'
      rw [Given.unmark_rename_mark]
      exact ⟨Or.inr ⟨_, _, hown, rfl⟩, rfl⟩
  | @numeric token _ make make' x _ _ haction haction' hx =>
      obtain ⟨own, hown, hmake⟩ := CommandTable.find?_of_repaint_numeric haction
      obtain ⟨own', hown', hmake'⟩ := CommandTable.find?_of_repaint_numeric haction'
      rw [hf.action, hown] at hown'
      cases hown'
      rw [← hmake, ← hmake', Given.unmark_rename_mark]
      exact ⟨Or.inr ⟨_, _, hown, x, rfl⟩, rfl⟩

/-- What a script supplies under a table, one command after the other: the record under the table
with any other colours for its own can be read off. -/
structure Supplies (p : Program) (table : CommandTable) (limits : Limits) (given : List Given) :
    Prop where
  source : ∀ one ∈ given, one.From p.tokens table
  record : ∀ g, (p.record (table.repaint g) limits).1.toList =
    given.map fun one => (one.repaint g).command

theorem Supplies.record_eq {p : Program} {limits : Limits} {given : List Given}
    (h : Supplies p table limits given) :
    (p.record table limits).1.toList = given.map Given.command := by
  have hrecord := h.record id
  simp only [CommandTable.repaint_id, Given.repaint_id] at hrecord
  exact hrecord

/-- No two lists can be read off all these records. -/
theorem Supplies.unique {p : Program} {limits : Limits} {given other : List Given}
    (h : Supplies p table limits given) (h' : Supplies p table limits other) : other = given := by
  obtain ⟨width, hwidth⟩ := Given.exists_width p.tokens
  have hmarked {given : List Given} (h : Supplies p table limits given) :
      (p.record (table.repaint (Given.mark width)) limits).1.toList.map (Given.unmark width) =
        given := by
    have hread (one : Given) (hone : one ∈ given) :
        Given.unmark width (one.repaint (Given.mark width)).command = id one :=
      Given.unmark_command (h.source one hone) hwidth
    rw [h.record, List.map_map]
    exact (List.map_congr_left hread).trans (List.map_id given)
  rw [← hmarked h, ← hmarked h']

theorem isRenaming_id : IsRenaming table id where
  injective := Function.injective_id
  keyword _ := rfl
  opening := rfl
  closing := rfl
  primitive _ _ := rfl
  count _ := rfl
  number _ := rfl

theorem from_rename {tokens : Array Token} {one : Given} (h : one.From tokens table) :
    (one.rename (renameWord f)).From (tokens.map f) table := by
  cases one with
  | painted word => exact Array.mem_map_of_mem h
  | own command => exact h

/-- What a script supplies shows in its record under a table with marked colours, and it supplies
the same with renamed words if its words are renamed. -/
theorem supplies_unmark {p : Program} {width : Nat} (hf : IsRenaming table f) (limits : Limits)
    (hwidth : ∀ token ∈ p.tokens, token.text.toList.length < width) :
    Supplies (p.rename f) table limits
      ((p.record (table.repaint (Given.mark width)) limits).1.toList.map fun command =>
        (Given.unmark width command).rename (renameWord f)) := by
  let Recorded (g : String → String) (x y : Array Command) : Prop :=
    (∀ command ∈ x.toList, (Given.unmark width command).From p.tokens table) ∧
      y.toList = x.toList.map fun command =>
        (((Given.unmark width command).rename (renameWord f)).repaint g).command
  have hpush (g : String → String) (x y : Array Command) (command command' : Command)
      (hxy : Recorded g x y) (hcommand : Counterpart p.tokens (table.repaint (Given.mark width))
        (table.repaint g) f command command') :
      Recorded g (x.push command) (y.push command') := by
    obtain ⟨hfrom, hyx⟩ := hxy
    obtain ⟨hsource, hpainted⟩ := given_of_counterpart hf hwidth hcommand
    refine ⟨?_, ?_⟩
    · intro other hother
      rw [Array.toList_push] at hother
      rcases List.mem_append.mp hother with hearlier | hlast
      · exact hfrom other hearlier
      · rw [List.mem_singleton.mp hlast]
        exact hsource
    · rw [Array.toList_push, Array.toList_push, List.map_append, hyx, hpainted]
      rfl
  have hrecord (g : String → String) :
      Recorded g (p.record (table.repaint (Given.mark width)) limits).1
        ((p.rename f).record (table.repaint g) limits).1 := by
    have hnew : Recorded g #[] #[] := by
      refine ⟨?_, rfl⟩
      intro command hcommand
      cases hcommand
    obtain ⟨-, hsession⟩ := run_rename limits Array.push Array.push hf (Given.mark width) g
      (hpush g) .top 0 (renamed_new hnew)
    exact hsession.turtle
  constructor
  · intro one hone
    obtain ⟨command, hcommand, rfl⟩ := List.mem_map.mp hone
    exact from_rename ((hrecord id).1 command hcommand)
  · intro g
    rw [List.map_map]
    exact (hrecord g).2

/-- A renamed script supplies the same with renamed words. -/
theorem exists_supplies (hf : IsRenaming table f) (p : Program) (limits : Limits) :
    ∃ given, Supplies p table limits given ∧
      Supplies (p.rename f) table limits (given.map (Given.rename (renameWord f))) := by
  obtain ⟨width, hwidth⟩ := Given.exists_width p.tokens
  refine ⟨(p.record (table.repaint (Given.mark width)) limits).1.toList.map (Given.unmark width),
    ?_, ?_⟩
  · have hsame : IsRenaming table id := isRenaming_id
    have hsupplies := supplies_unmark hsame limits hwidth
    simp only [Program.rename_id, Given.rename_renameWord_id] at hsupplies
    exact hsupplies
  · rw [List.map_map]
    exact supplies_unmark hf limits hwidth

/-- The words that a script supplies are renamed as its commands are, unless the table paints by
itself with a colour that the renaming would change. -/
theorem map_command_rename {tokens : Array Token} {given : List Given}
    (h : ∀ one ∈ given, one.From tokens table)
    (htable : ∀ colour, table.Paints colour → renameWord f colour = colour) :
    (given.map (Given.rename (renameWord f))).map Given.command =
      (given.map Given.command).map (Command.rename (renameWord f)) := by
  rw [List.map_map, List.map_map]
  apply List.map_congr_left
  intro one hone
  exact Given.command_rename (h one hone) htable

/-- A frame of the renamed script, run on the same turtle under the same table, stops at the same
index and leaves the renamed session; what becomes of the turtle is another matter. -/
theorem run_rename_new {σ : Type u} (hf : IsRenaming table f) (p : Program) (limits : Limits)
    (obey : σ → Command → σ) (turtle : σ) (frame : Frame) (start : Nat) :
    let I : Interpreter σ := ⟨p.tokens, table, limits, obey⟩
    let J : Interpreter σ := ⟨(p.rename f).tokens, table, limits, obey⟩
    (I.run frame start (.new turtle)).1 = (J.run frame start (.new turtle)).1 ∧
      Renamed f (fun _ _ => True) (I.run frame start (.new turtle)).2
        (J.run frame start (.new turtle)).2 := by
  have hnew : Renamed f (fun _ _ => True) (.new turtle) (.new turtle) := renamed_new trivial
  have hobey (x y : σ) (command command' : Command) (_ : True)
      (_ : Counterpart p.tokens (table.repaint id) (table.repaint id) f command command') :
      True := trivial
  have hrun := run_rename limits obey obey hf id id hobey frame start hnew
  rw [CommandTable.repaint_id] at hrun
  exact hrun

/-- Free words can be renamed. There is one list of what the script supplies, command by command,
from which its record under the table with any colours can be read, and the renamed script supplies
the same with renamed words: it gives the commands of the script, with the renamed word for each
colour that is a word of the script, and the same colour where the table paints by itself. These are
the commands of the script with all colours renamed, unless the table paints by itself with a colour
that the renaming would change. The renamed script steps over tokens for the same reasons with
renamed words, has the renamed procedures, and is cut short just when the script is; and every frame
of it stops at the same index. -/
theorem record_rename (hf : IsRenaming table f) (p : Program) (limits : Limits) :
    let original := p.record table limits
    let renamed := (p.rename f).record table limits
    (∃ given, Supplies p table limits given ∧
        (∀ other, Supplies p table limits other → other = given) ∧
        Supplies (p.rename f) table limits (given.map (Given.rename (renameWord f))) ∧
        original.1.toList = given.map Given.command ∧
        renamed.1.toList = (given.map (Given.rename (renameWord f))).map Given.command) ∧
      ((∀ colour, table.Paints colour → renameWord f colour = colour) →
        renamed.1.toList = original.1.toList.map (Command.rename (renameWord f))) ∧
      renamed.2.skipped = original.2.skipped.map (Skip.rename (renameWord f)) ∧
      renamed.2.procedures = (original.2.procedures.map (renameWord f)).mergeSort ∧
      renamed.2.truncated = original.2.truncated ∧
      ∀ (σ : Type u) (obey : σ → Command → σ) (turtle : σ) (frame : Frame) (start : Nat),
        (Interpreter.run ⟨(p.rename f).tokens, table, limits, obey⟩ frame start (.new turtle)).1 =
          (Interpreter.run ⟨p.tokens, table, limits, obey⟩ frame start (.new turtle)).1 := by
  intro original renamed
  obtain ⟨given, hsupplies, hrenamed⟩ := exists_supplies hf p limits
  obtain ⟨-, hsession⟩ := run_rename_new hf p limits Array.push #[] .top 0
  refine ⟨⟨given, hsupplies, fun _ => hsupplies.unique, hrenamed, hsupplies.record_eq,
    hrenamed.record_eq⟩, ?_, ?_, ?_, hsession.truncated, ?_⟩
  · intro htable
    rw [hrenamed.record_eq, hsupplies.record_eq]
    exact map_command_rename hsupplies.source htable
  · have hskipped := congrArg Array.toList hsession.skipped
    rw [Array.toList_map] at hskipped
    exact hskipped
  · have hnames := congrArg Procedures.names hsession.procedures
    rw [Procedures.names_rename] at hnames
    exact hnames
  · intro σ obey turtle frame start
    obtain ⟨hstop, -⟩ := run_rename_new hf p limits obey turtle frame start
    exact hstop.symm

section Exchange

variable {a b : String}

/-- Two words change places. -/
def exchange (a b : String) (token : Token) : Token :=
  if token = ⟨a⟩ then ⟨b⟩
  else if token = ⟨b⟩ then ⟨a⟩
  else token

theorem exchange_exchange (token : Token) : exchange a b (exchange a b token) = token := by
  unfold exchange
  split_ifs <;> simp_all

/-- What is the same for both words is the same after the exchange. -/
theorem apply_exchange {α : Type u} {F : Token → α} (h : F ⟨a⟩ = F ⟨b⟩) (token : Token) :
    F (exchange a b token) = F token := by
  unfold exchange
  split_ifs with hfirst hsecond
  · rw [hfirst, h]
  · rw [hsecond, h]
  · rfl

theorem exchange_of_ne (ha : token ≠ ⟨a⟩) (hb : token ≠ ⟨b⟩) : exchange a b token = token := by
  rw [exchange, if_neg ha, if_neg hb]

theorem exchange_of_role (ha : Token.role ⟨a⟩ = .name) (hb : Token.role ⟨b⟩ = .name)
    (hrole : token.role ≠ .name) : exchange a b token = token := by
  apply exchange_of_ne
  · rintro rfl
    exact hrole ha
  · rintro rfl
    exact hrole hb

/-- Names that no row of the table has, and that stand for the same count, can change places. -/
theorem sparesLanguage_exchange (ha : Token.role ⟨a⟩ = .name) (hb : Token.role ⟨b⟩ = .name)
    (harow : table.contains a = false) (hbrow : table.contains b = false)
    (hcount : Integer.leading? a = Integer.leading? b) : SparesLanguage table (exchange a b) where
  injective := Function.LeftInverse.injective exchange_exchange
  keyword k := exchange_of_role ha hb (by simp)
  opening := exchange_of_role ha hb (by simp)
  closing := exchange_of_role ha hb (by simp)
  primitive := by
    intro name hcontains
    apply exchange_of_ne
    · rintro ⟨⟩
      rw [harow] at hcontains
      cases hcontains
    · rintro ⟨⟩
      rw [hbrow] at hcontains
      cases hcontains
  count := apply_exchange (F := fun token => Integer.leading? token.text) hcount

theorem isRenaming_exchange (ha : Token.role ⟨a⟩ = .name) (hb : Token.role ⟨b⟩ = .name)
    (harow : table.contains a = false) (hbrow : table.contains b = false)
    (hcount : Integer.leading? a = Integer.leading? b)
    (hnumber : Number.finite? a = Number.finite? b) : IsRenaming table (exchange a b) where
  toSparesLanguage := sparesLanguage_exchange ha hb harow hbrow hcount
  number := apply_exchange (F := fun token => Number.finite? token.text) hnumber

end Exchange

/-- The standard table does not paint by itself. -/
theorem not_paints_standard (colour : String) : ¬ CommandTable.standard.Paints colour := by
  rintro ⟨name, action, haction, hgives⟩
  have hrows : ∀ row ∈ CommandTable.standardRows, ¬ row.2.Gives (.background colour) := by
    simp [CommandTable.standardRows, Action.Gives]
  exact hrows (name, action) (CommandTable.mem_standardRows_of_find? haction) hgives

/-- The standard table with a primitive that paints by itself. -/
def decorated : CommandTable :=
  .ofRows (CommandTable.standardRows ++ [("paint", .plain (.background "house"))])

theorem paints_decorated {colour : String} (h : decorated.Paints colour) : colour = "house" := by
  obtain ⟨name, action, haction, hgives⟩ := h
  have hfind : decorated.find? name =
      if name == "paint" then some (.plain (.background "house"))
      else CommandTable.standard.find? name := by
    simp only [decorated, CommandTable.find?, CommandTable.ofRows, List.reverse_append,
      List.reverse_singleton, List.singleton_append, List.lookup_cons]
    cases name == "paint" <;> rfl
  rw [hfind] at haction
  split_ifs at haction
  · cases haction
    exact Command.background.inj hgives
  · exact absurd ⟨name, action, haction, hgives⟩ (not_paints_standard colour)

/-- A colour that the table paints with stays as it is, also where the same word is renamed; and
words that are equal as numbers are not the same input if they are zeros of different signs. -/
theorem own_colour_not_renamed :
    let paint : Program := ⟨#[⟨"paint"⟩]⟩
    let f := exchange "house" "roof"
    let rest : Program := ⟨#[⟨"fd"⟩, ⟨"0"⟩]⟩
    let g := exchange "0" "-0"
    IsRenaming decorated f ∧
      (paint.record decorated .standard).1.toList = [.background "house"] ∧
      ((paint.rename f).record decorated .standard).1.toList ≠
        (paint.record decorated .standard).1.toList.map (Command.rename (renameWord f)) ∧
      SparesLanguage .standard g ∧
      (∀ token, g token ≠ token →
        (Number.finite? (g token).text == Number.finite? token.text) = true) ∧
      ((rest.rename g).record .standard .standard).1.toList ≠
        (rest.record .standard .standard).1.toList.map (Command.rename (renameWord g)) := by
  intro paint f rest g
  have hhouse : (paint.record decorated .standard).1.toList = [.background "house"] := by
    with_unfolding_all rfl
  have hrenamed : ((paint.rename f).record decorated .standard).1.toList =
      [.background "house"] := by
    with_unfolding_all rfl
  have hforward : (rest.record .standard .standard).1.toList.map
      (Command.text ∘ Command.rename (renameWord g)) = ["forward 0"] := by
    decide +kernel
  have hbackward : ((rest.rename g).record .standard .standard).1.toList.map Command.text =
      ["forward -0"] := by
    decide +kernel
  refine ⟨?_, hhouse, ?_, ?_, ?_, ?_⟩
  · exact isRenaming_exchange (by decide) (by decide) (by decide) (by decide) (by decide +kernel)
      (by with_unfolding_all rfl)
  · rw [hhouse, hrenamed]
    intro hsame
    have hroof : Command.background "house" = Command.background "roof" := by
      injection hsame
    simp at hroof
  · exact sparesLanguage_exchange (by decide) (by decide) (by decide) (by decide)
      (by decide +kernel)
  · intro token hmoved
    by_cases hzero : token = ⟨"0"⟩
    · subst hzero
      decide +kernel
    · by_cases hnegative : token = ⟨"-0"⟩
      · subst hnegative
        decide +kernel
      · exact absurd (exchange_of_ne hzero hnegative) hmoved
  · intro hsame
    have htexts := congrArg (List.map Command.text) hsame
    rw [hbackward, List.map_map, hforward] at htexts
    simp at htexts

/-- One word is a procedure, an unknown command and a count, and the other a colour. -/
def building : Program :=
  ⟨#[⟨"tower"⟩, ⟨"to"⟩, ⟨"roof"⟩, ⟨"pu"⟩, ⟨"end"⟩, ⟨"bckgr"⟩, ⟨"tower"⟩, ⟨"roof"⟩, ⟨"repeat"⟩,
     ⟨"roof"⟩, .opening, .closing, ⟨"paint"⟩]⟩

/-- The two words change places under a table that paints with a third one. -/
theorem record_rename_building :
    let f := exchange "roof" "tower"
    let original := building.record decorated .standard
    let renamed := (building.rename f).record decorated .standard
    IsRenaming decorated f ∧
      (∃ given, Supplies building decorated .standard given ∧
        Supplies (building.rename f) decorated .standard
          (given.map (Given.rename (renameWord f)))) ∧
      original.1.toList = [.background "tower", .penUp, .background "house"] ∧
      renamed.1.toList = [.background "roof", .penUp, .background "house"] ∧
      original.2.skipped = [.unknownCommand "tower", .badCount "roof"] ∧
      renamed.2.skipped = [.unknownCommand "roof", .badCount "tower"] ∧
      renamed.2.procedures = (original.2.procedures.map (renameWord f)).mergeSort ∧
      (Interpreter.run ⟨(building.rename f).tokens, decorated, .standard, Array.push⟩
        .procedure 2 (.new #[])).1 = 4 := by
  intro f original renamed
  have hf : IsRenaming decorated f :=
    isRenaming_exchange (by decide) (by decide) (by decide) (by decide) (by decide +kernel)
      (by with_unfolding_all rfl)
  have hcommands : original.1.toList = [.background "tower", .penUp, .background "house"] := by
    with_unfolding_all rfl
  have hskipped : original.2.skipped = [.unknownCommand "tower", .badCount "roof"] := by
    decide +kernel
  have hstop : (Interpreter.run ⟨building.tokens, decorated, .standard, Array.push⟩
      .procedure 2 (.new #[])).1 = 4 := by
    decide +kernel
  obtain ⟨⟨given, hsupplies, -, hsupplied, -, -⟩, hrenamed, hreasons, hprocedures, -, hstops⟩ :=
    record_rename hf building .standard
  refine ⟨hf, ⟨given, hsupplies, hsupplied⟩, hcommands, ?_, hskipped, ?_, hprocedures, ?_⟩
  · have hcolours := hrenamed fun colour hpaints => by rw [paints_decorated hpaints]; rfl
    rw [hcommands] at hcolours
    exact hcolours
  · rw [hskipped] at hreasons
    exact hreasons
  · rw [hstops (Array Command) Array.push #[] .procedure 2]
    exact hstop

end Renaming

end TurtleScript
