import TurtleScript.Proofs.Interpreter.Machine
import TurtleScript.Proofs.Text.ByteOrder

/-!
What can be relied on of the procedures of a session. Each of them is where its definition stands
in the tokens, under a name that means nothing else, and stays there: calls trust the index that was
kept, and names of procedures are told apart from commands. All of this is kept by every step of
the machine, whatever frames are run and from wherever, because a definition is the only step that
adds a procedure and it adds none under a name that is taken.
-/

namespace TurtleScript

universe u

namespace Registry

/-- A procedure as it stands in the tokens: `to`, its name, and its body, which begins with a
token. The name is no bracket, no keyword, and no name of a primitive. -/
structure IsEntry (tokens : Array Token) (table : CommandTable) (name : String) (body : Nat) :
    Prop where
  two_le : 2 ≤ body
  lt_size : body < tokens.size
  defined : tokens[body - 2]? = some Keyword.define.token
  named : tokens[body - 1]? = some ⟨name⟩
  not_bracket : (Token.mk name).isBracket = false
  not_keyword : ∀ k : Keyword, k.spelling ≠ name
  not_primitive : table.contains name = false

/-- Procedures with entries only, and no two of the same name. -/
structure Sound (tokens : Array Token) (table : CommandTable) (procedures : Procedures) : Prop where
  entries : ∀ name body, (name, body) ∈ procedures.bodies → IsEntry tokens table name body
  nodup : (procedures.bodies.map Prod.fst).Nodup

theorem isBracket_of_not_reserved {t : Token} (h : t.isReserved = false) :
    t.isBracket = false := by
  have hrole : t.role = .name := Token.role_eq_name_iff.mpr h
  have hopening : t ≠ .opening := by
    rintro rfl
    simp at hrole
  have hclosing : t ≠ .closing := by
    rintro rfl
    simp at hrole
  simp [Token.isBracket, hopening, hclosing]

theorem spelling_ne_of_not_reserved {t : Token} (h : t.isReserved = false) (k : Keyword) :
    k.spelling ≠ t.text := by
  intro hspelling
  have hrole : t.role = .name := Token.role_eq_name_iff.mpr h
  have htoken : t = k.token := by
    cases t with
    | mk text => exact congrArg Token.mk hspelling.symm
  rw [Token.role_eq_keyword_iff.mpr htoken] at hrole
  cases hrole

theorem mem_of_find? {procedures : Procedures} {name : String} {body : Nat}
    (h : procedures.find? name = some body) : (name, body) ∈ procedures.bodies := by
  obtain ⟨before, after, hbodies, _⟩ := List.lookup_eq_some_iff.mp h
  simp [hbodies]

theorem not_mem_of_find?_eq_none {procedures : Procedures} {name : String}
    (h : procedures.find? name = none) : name ∉ procedures.bodies.map Prod.fst := by
  intro hmem
  obtain ⟨entry, hentry, rfl⟩ := List.mem_map.mp hmem
  have hne := List.lookup_eq_none_iff.mp h entry hentry
  simp at hne

section

variable {σ : Type u} {C : Clocked σ}

/-- A definition that is met in the tokens leaves only entries behind. -/
theorem Sound.define {s : Session σ} (h : Sound C.tokens C.table s.procedures) {name : Token}
    {index : Nat} (hkeyword : C.tokens[index]? = some Keyword.define.token)
    (hname : C.tokens[index + 1]? = some name) (hroom : index + 2 < C.tokens.size) :
    Sound C.tokens C.table (s.define C.table name (index + 2)).procedures := by
  rcases s.define_cases C.table name (index + 2) with
    ⟨reason, hskip⟩ | ⟨hprimitive, hreserved, hfree, hadded⟩
  · rw [hskip]
    exact h
  · rw [hadded]
    have hentry : IsEntry C.tokens C.table name.text (index + 2) := {
      two_le := Nat.le_add_left 2 index
      lt_size := hroom
      defined := hkeyword
      named := hname
      not_bracket := isBracket_of_not_reserved hreserved
      not_keyword := spelling_ne_of_not_reserved hreserved
      not_primitive := by simp [CommandTable.contains, hprimitive] }
    refine ⟨?_, List.nodup_cons.mpr ⟨not_mem_of_find?_eq_none hfree, h.nodup⟩⟩
    intro other body hmem
    rcases List.mem_cons.mp hmem with heq | hold
    · cases heq
      exact hentry
    · exact h.entries other body hold

theorem keeps_sound : C.Keeps fun s => Sound C.tokens C.table s.procedures where
  tick h _ := h
  give h _ _ := h
  skip _ h := h
  cut h _ := h
  define h hkeyword hname hroom := h.define hkeyword hname hroom

/-- A procedure stays where it is. -/
theorem keeps_find? (name : String) (body : Nat) :
    C.Keeps fun s => s.procedures.find? name = some body where
  tick h _ := h
  give h _ _ := h
  skip _ h := h
  cut h _ := h
  define := by
    intro s other index h _ _ _
    rcases s.define_cases C.table other (index + 2) with ⟨reason, hskip⟩ | ⟨_, _, hfree, hadded⟩
    · rw [hskip]
      exact h
    · rw [hadded]
      have hne : (name == other.text) = false := by
        apply beq_false_of_ne
        rintro rfl
        rw [hfree] at h
        cases h
      simpa [Procedures.find?, List.lookup_cons, hne] using h

end

theorem Sound.not_primitive {tokens : Array Token} {table : CommandTable}
    {procedures : Procedures} (h : Sound tokens table procedures) {name : String} {body : Nat}
    (hfind : procedures.find? name = some body) : table.find? name = none := by
  have hcontains := (h.entries name body (mem_of_find? hfind)).not_primitive
  simpa [CommandTable.contains] using hcontains

theorem sound_empty (tokens : Array Token) (table : CommandTable) :
    Sound tokens table Procedures.empty := by
  refine ⟨?_, List.nodup_nil⟩
  intro name body hmem
  cases hmem

theorem sound_of_reached {σ : Type u} {I : Interpreter σ} {x : Machine.State σ}
    (h : I.Reached x) : Sound I.tokens I.table x.session.procedures :=
  (keeps_sound (C := I.clocked)).reached (fun _ => sound_empty I.tokens I.table) h

theorem mem_names_iff {procedures : Procedures} {name : String} :
    name ∈ procedures.names ↔ ∃ body, procedures.find? name = some body := by
  rw [Procedures.names, List.mem_mergeSort]
  constructor
  · intro hmem
    cases hfind : procedures.find? name with
    | none => exact absurd hmem (not_mem_of_find?_eq_none hfind)
    | some body => exact ⟨body, rfl⟩
  · rintro ⟨body, hfind⟩
    exact List.mem_map.mpr ⟨(name, body), mem_of_find? hfind, rfl⟩

/-- Without two procedures of the same name, the names are listed in strictly ascending order. -/
theorem Sound.names_ascending {tokens : Array Token} {table : CommandTable}
    {procedures : Procedures} (h : Sound tokens table procedures) :
    procedures.names.Pairwise fun a b => Text.bytes a < Text.bytes b := by
  have hsorted : procedures.names.Pairwise fun a b => decide (a ≤ b) = true :=
    Text.pairwise_mergeSort _
  have hnodup : procedures.names.Nodup :=
    (List.mergeSort_perm _ _).nodup_iff.mpr h.nodup
  refine (hsorted.and hnodup).imp ?_
  rintro a b ⟨hle, hne⟩
  apply Text.bytes_lt_bytes
  apply Classical.byContradiction
  intro hnot
  exact hne (String.le_antisymm (of_decide_eq_true hle) (String.not_lt.mp hnot))

/-- What can be relied on of the procedures in every state that a machine reaches: each of them has
an entry in the tokens, no later step changes or removes it, and the report lists their names, in
strictly ascending order of their bytes. The sessions that calls leave behind are among the states
reached. -/
theorem registry_of_reached {σ : Type u} (I : Interpreter σ) :
    (∀ turtle calls, I.Reached (.atRest (I.afterCalls calls (.new turtle)))) ∧
      ∀ x, I.Reached x →
        (∀ name body, x.session.procedures.find? name = some body →
          IsEntry I.tokens I.table name body ∧
            ∀ y, I.Leads x y → y.session.procedures.find? name = some body) ∧
        (∀ name, name ∈ x.session.report.procedures ↔
          ∃ body, x.session.procedures.find? name = some body) ∧
        x.session.report.procedures.Pairwise fun a b => Text.bytes a < Text.bytes b := by
  refine ⟨fun turtle calls => ⟨turtle, I.leads_afterCalls calls _⟩, ?_⟩
  intro x hx
  have hsound := sound_of_reached hx
  refine ⟨?_, fun name => mem_names_iff, hsound.names_ascending⟩
  intro name body hfind
  refine ⟨hsound.entries name body (mem_of_find? hfind), ?_⟩
  intro y hleads
  exact (keeps_find? (C := I.clocked) name body).leads hleads hfind

/-- Two definitions, of which the second is met first when the script is run from it. -/
def crossed : Interpreter (Array Command) where
  tokens := #[⟨"to"⟩, ⟨"q"⟩, ⟨"pu"⟩, ⟨"end"⟩, ⟨"to"⟩, ⟨"p"⟩, ⟨"q"⟩, ⟨"end"⟩, ⟨"p"⟩]
  table := .standard
  limits := ⟨2, some 9⟩
  obey := Array.push

theorem registry_of_reached_crossed :
    let s := crossed.afterCalls [(.loop, 4), (.top, 0)] (.new #[])
    crossed.Reached (.atRest s) ∧ s.procedures.find? "p" = some 6 ∧
      IsEntry crossed.tokens .standard "p" 6 ∧
      (∀ y, crossed.Leads (.atRest s) y → y.session.procedures.find? "p" = some 6) ∧
      "q" ∈ s.report.procedures := by
  intro s
  obtain ⟨hcalls, hstates⟩ := registry_of_reached crossed
  have hreached : crossed.Reached (.atRest s) := hcalls #[] [(.loop, 4), (.top, 0)]
  obtain ⟨hentries, hnames, -⟩ := hstates (.atRest s) hreached
  have hp : s.procedures.find? "p" = some 6 := by decide +kernel
  have hq : s.procedures.find? "q" = some 2 := by decide +kernel
  obtain ⟨hentry, hlater⟩ := hentries "p" 6 hp
  exact ⟨hreached, hp, hentry, hlater, (hnames "q").mpr ⟨2, hq⟩⟩

end Registry

end TurtleScript
