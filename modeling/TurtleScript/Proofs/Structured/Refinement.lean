import Mathlib.Data.List.Forall2
import TurtleScript.Program
import TurtleScript.Proofs.Brackets
import TurtleScript.Proofs.Interpreter.Orders
import TurtleScript.Proofs.Structured.Script

/-!
The interpreter, which has only a cursor, runs a structured script as its tree says. What carries
the proof is that a statement, wherever it stands, moves the cursor just past its own tokens and
changes the session by its meaning alone; loops and calls run bodies elsewhere in the tokens, where
the same holds one level deeper.
-/

namespace TurtleScript

universe u

namespace Structured

theorem isOperand_of_not_reserved {t : Token} (h : t.isReserved = false) : IsOperand t := by
  have hrole : t.role = .name := Token.role_eq_name_iff.mpr h
  refine ⟨?_, ?_, ?_⟩
  · rintro rfl
    simp at hrole
  · rintro rfl
    simp at hrole
  · rintro rfl
    simp at hrole

/-- No number is written like a bracket or like `end`. -/
theorem isOperand_of_finite {t : Token} {x : Float} (h : Number.finite? t.text = some x) :
    IsOperand t :=
  isOperand_of_not_reserved (Token.role_eq_name_iff.mp (Token.role_of_finite h))

theorem isOperand_keyword {k : Keyword} (h : k ≠ .finish) : IsOperand k.token := by
  refine ⟨?_, ?_, ?_⟩
  · intro heq
    have hrole := Token.role_eq_opening_iff.mpr heq
    simp at hrole
  · intro heq
    have hrole := Token.role_eq_closing_iff.mpr heq
    simp at hrole
  · intro heq
    have hrole := Token.role_eq_keyword_iff.mpr heq
    simp [h] at hrole

def Statement.IsLoop : Statement → Prop
  | .loop _ _ => True
  | _ => False

/-- Loops are the only statements inside which statements stand. -/
theorem Statement.nesting {P : Statement → Prop} (leaf : ∀ st, ¬ st.IsLoop → P st)
    (loop : ∀ count body, (∀ st ∈ body, P st) → P (.loop count body)) : ∀ st, P st
  | .loop count body => loop count body fun st _ => Statement.nesting leaf loop st
  | .plain name => leaf (.plain name) id
  | .numeric name argument => leaf (.numeric name argument) id
  | .bare name => leaf (.bare name) id
  | .save => leaf .save id
  | .paint colour => leaf (.paint colour) id
  | .word name => leaf (.word name) id

section Tokens

variable {table : CommandTable} {next : Option Token} {t : Token}

theorem Statement.isOperand_of_mem {st : Statement} (hleaf : ¬ st.IsLoop)
    (h : st.WellFormed table next) (hmem : t ∈ st.tokens) : IsOperand t := by
  cases st with
  | plain name =>
      simp only [Statement.tokens, List.mem_singleton] at hmem
      subst hmem
      exact isOperand_of_not_reserved h.1
  | numeric name argument =>
      obtain ⟨hname, _, x, hx⟩ := h
      simp only [Statement.tokens, List.mem_cons, List.not_mem_nil, or_false] at hmem
      rcases hmem with rfl | rfl
      · exact isOperand_of_not_reserved hname
      · exact isOperand_of_finite hx
  | bare name =>
      simp only [Statement.tokens, List.mem_singleton] at hmem
      subst hmem
      exact isOperand_of_not_reserved h.1
  | save =>
      simp only [Statement.tokens, List.mem_singleton] at hmem
      subst hmem
      exact isOperand_keyword (by decide)
  | paint colour =>
      simp only [Statement.tokens, List.mem_cons, List.not_mem_nil, or_false] at hmem
      rcases hmem with rfl | rfl
      · exact isOperand_keyword (by decide)
      · exact h
  | loop count body => exact absurd trivial hleaf
  | word name =>
      simp only [Statement.tokens, List.mem_singleton] at hmem
      subst hmem
      exact isOperand_of_not_reserved h.1

/-- What holds of the tokens of each statement of a block holds of the tokens of the block. -/
theorem forall_mem_blockTokens {P : Token → Prop} {block : List Statement}
    (hP : ∀ st ∈ block, ∀ next, st.WellFormed table next → ∀ t ∈ st.tokens, P t)
    (h : BlockWellFormed table next block) : ∀ t ∈ blockTokens block, P t := by
  induction block with
  | nil => simp [blockTokens]
  | cons st rest ih =>
      intro t hmem
      rw [blockTokens, List.mem_append] at hmem
      rcases hmem with hfirst | hrest
      · exact hP st (by simp) _ h.1 t hfirst
      · exact ih (fun st' hst' => hP st' (by simp [hst'])) h.2 t hrest

/-- A well-formed statement has no `end` in it. -/
theorem Statement.ne_finish (st : Statement) :
    ∀ next, st.WellFormed table next → ∀ t ∈ st.tokens, t ≠ Keyword.finish.token := by
  induction st using Statement.nesting with
  | leaf st hleaf =>
      intro next h t hmem
      exact (isOperand_of_mem hleaf h hmem).2.2
  | loop count body ih =>
      intro next h t hmem
      simp only [Statement.tokens, List.mem_append, List.mem_cons, List.not_mem_nil,
        or_false] at hmem
      rcases hmem with ((rfl | rfl | rfl) | hbody) | rfl
      · exact (isOperand_keyword (by decide)).2.2
      · exact h.1.2.2
      · decide
      · exact forall_mem_blockTokens ih h.2 t hbody
      · decide

theorem block_ne_finish {block : List Statement} (h : BlockWellFormed table next block) :
    ∀ t ∈ blockTokens block, t ≠ Keyword.finish.token :=
  forall_mem_blockTokens (fun st _ => st.ne_finish) h

end Tokens

section Brackets

variable {σ : Type u} {I : Interpreter σ} {table : CommandTable} {next : Option Token}

/-- Counting brackets passes over tokens that are none. -/
theorem closeFrom_of_isOperand {ts rest : List Token} {depth index : Nat}
    (hts : ∀ t ∈ ts, IsOperand t) (h : I.ahead index = ts ++ rest) :
    Bracket.closeFrom I.tokens depth index =
      Bracket.closeFrom I.tokens depth (index + ts.length) := by
  induction ts generalizing index with
  | nil => rfl
  | cons t ts ih =>
      obtain ⟨hopening, hclosing, _⟩ := hts t (by simp)
      have hnext : I.ahead (index + 1) = ts ++ rest := Interpreter.ahead_of_cons h
      rw [Bracket.closeFrom_of_ne (Interpreter.ahead_cons_iff.mp ⟨_, h⟩) hopening hclosing,
        ih (fun t' ht' => hts t' (by simp [ht'])) hnext, List.length_cons]
      congr 1
      omega

theorem closeFrom_block_of {block : List Statement}
    (hP : ∀ st ∈ block, ∀ next, st.WellFormed table next → ∀ depth index rest,
      I.ahead index = st.tokens ++ rest →
      Bracket.closeFrom I.tokens depth index =
        Bracket.closeFrom I.tokens depth (index + st.tokens.length))
    (h : BlockWellFormed table next block) {depth index : Nat} {rest : List Token}
    (hahead : I.ahead index = blockTokens block ++ rest) :
    Bracket.closeFrom I.tokens depth index =
      Bracket.closeFrom I.tokens depth (index + (blockTokens block).length) := by
  induction block generalizing index with
  | nil => rfl
  | cons st block ih =>
      rw [blockTokens, List.append_assoc] at hahead
      rw [hP st (by simp) _ h.1 depth index _ hahead,
        ih (fun st' hst' => hP st' (by simp [hst'])) h.2
          (Interpreter.ahead_of_append hahead),
        blockTokens, List.length_append, Nat.add_assoc]

/-- Counting brackets passes over a whole statement: the brackets of a loop cancel out. -/
theorem Statement.closeFrom_eq (st : Statement) :
    ∀ next, st.WellFormed table next → ∀ depth index rest,
      I.ahead index = st.tokens ++ rest →
      Bracket.closeFrom I.tokens depth index =
        Bracket.closeFrom I.tokens depth (index + st.tokens.length) := by
  induction st using Statement.nesting with
  | leaf st hleaf =>
      intro next h depth index rest hahead
      exact closeFrom_of_isOperand (fun t hmem => isOperand_of_mem hleaf h hmem) hahead
  | loop count body ih =>
      intro next h depth index rest hahead
      have hhead : I.ahead index = [Keyword.repetition.token, count] ++
          (.opening :: (blockTokens body ++ (.closing :: rest))) := by
        simpa [Statement.tokens] using hahead
      have hoperands : ∀ t ∈ [Keyword.repetition.token, count], IsOperand t := by
        intro t hmem
        simp only [List.mem_cons, List.not_mem_nil, or_false] at hmem
        rcases hmem with rfl | rfl
        · exact isOperand_keyword (by decide)
        · exact h.1
      have hopen := Interpreter.ahead_of_append hhead
      have hbody := Interpreter.ahead_of_cons hopen
      have hclose := Interpreter.ahead_of_append hbody
      rw [closeFrom_of_isOperand hoperands hhead,
        Bracket.closeFrom_of_opening (Interpreter.ahead_cons_iff.mp ⟨_, hopen⟩),
        closeFrom_block_of ih h.2 hbody,
        Bracket.closeFrom_succ_of_closing (Interpreter.ahead_cons_iff.mp ⟨_, hclose⟩)]
      simp only [Statement.tokens, List.length_append, List.length_cons, List.length_nil]
      congr 1
      omega

/-- The bracket that closes a body in front of it is the one a skipped loop ends with. -/
theorem close_block {block : List Statement} {index : Nat} {rest : List Token}
    (h : BlockWellFormed table next block)
    (hahead : I.ahead index = blockTokens block ++ .closing :: rest) :
    Bracket.close I.tokens index = index + (blockTokens block).length := by
  have hclose := Interpreter.ahead_of_append hahead
  rw [Bracket.close, closeFrom_block_of (fun st _ => st.closeFrom_eq) h hahead,
    Bracket.closeFrom_zero_of_closing (Interpreter.ahead_cons_iff.mp ⟨_, hclose⟩)]

end Brackets

section Running

variable {σ : Type u} {I : Interpreter σ} {library : Library}
  {inner : Option (Interpreter.Runner σ)}
  {below : Option BodyMeaning} {frame : Frame} {index : Nat} {s : Session σ}
  {rest : List Token}

/-- A session after something has been run in it. -/
def after (I : Interpreter σ) (s : Session σ) (outcome : Outcome) : Session σ :=
  { s with
    turtle := outcome.commands.foldl I.obey s.turtle
    steps := s.steps + outcome.steps
    skipped := s.skipped ++ outcome.skipped.toArray }

@[simp]
theorem after_nothing : after I s .nothing = s := by
  simp [after, Outcome.nothing]

@[simp]
theorem after_emit (command : Command) : after I s (.emit command) = I.tell s.tick command := by
  simp [after, Outcome.emit, Interpreter.tell, Session.tick]

@[simp]
theorem after_step : after I s .step = s.tick := by
  simp [after, Outcome.step, Session.tick]

@[simp]
theorem after_note (reason : Skip) : after I s (.note reason) = s.skip reason := by
  simp [after, Outcome.note, Session.skip]

@[simp]
theorem after_append (a b : Outcome) : after I s (a ++ b) = after I (after I s a) b := by
  have happend : a ++ b =
      ⟨a.commands ++ b.commands, a.skipped ++ b.skipped, a.steps + b.steps⟩ := rfl
  rw [happend]
  simp [after, Nat.add_assoc]

@[simp]
theorem procedures_after (outcome : Outcome) :
    (after I s outcome).procedures = s.procedures := rfl

/-- A body stands at an index, in front of the token that closes it. -/
def Stands (I : Interpreter σ) (close : Token) (start : Nat) (body : List Statement) : Prop :=
  BlockWellFormed I.table (some close) body ∧
    ∃ rest, I.ahead start = blockTokens body ++ close :: rest

/-- The procedures of a session are those of a library, each where its body stands, and none of
them has the name of a primitive. -/
def Shelved (I : Interpreter σ) (procedures : Procedures) (library : Library) : Prop :=
  List.Forall₂ (fun (entry : String × Nat) (shelf : String × List Statement) =>
    entry.1 = shelf.1 ∧ I.table.find? shelf.1 = none ∧
      Stands I Keyword.finish.token entry.2 shelf.2) procedures.bodies library

theorem lookup_of_shelved {procedures : Procedures} (h : Shelved I procedures library)
    (name : String) :
    (procedures.find? name = none ∧ library.lookup name = none) ∨
      ∃ start body, procedures.find? name = some start ∧ library.lookup name = some body ∧
        I.table.find? name = none ∧ Stands I Keyword.finish.token start body := by
  obtain ⟨bodies⟩ := procedures
  change List.Forall₂ _ bodies library at h
  change (bodies.lookup name = none ∧ _) ∨ ∃ start body, bodies.lookup name = some start ∧ _
  induction h with
  | nil => exact Or.inl ⟨rfl, rfl⟩
  | @cons entry shelf bodies library hhead _ ih =>
      obtain ⟨key, start⟩ := entry
      obtain ⟨key', body⟩ := shelf
      obtain ⟨heq, hprimitive, hstands⟩ := hhead
      change key = key' at heq
      subst heq
      by_cases hname : name = key
      · subst hname
        exact Or.inr ⟨start, body, by simp, by simp, hprimitive, hstands⟩
      · have haway : (name == key) = false := by simp [hname]
        simpa [List.lookup_cons, haway] using ih

/-- The token in front of which a body of a kind ends. -/
def Closes : Frame → Token → Prop
  | .top, _ => False
  | .procedure, t => t = Keyword.finish.token
  | .loop, t => t = .closing

/-- Nested frames do what bodies mean: both are refused, or both are run. -/
def Follows (I : Interpreter σ) (library : Library) :
    Option (Interpreter.Runner σ) → Option BodyMeaning → Prop
  | none, none => True
  | some run, some meaning => ∀ frame close start body s, Closes frame close →
      Stands I close start body → Shelved I s.procedures library →
      run frame start s = (start + (blockTokens body).length, after I s (meaning close body))
  | _, _ => False

theorem walk_of_closes {t : Token} (hlimit : I.limits.steps = none) (hcloses : Closes frame t)
    (h : I.ahead index = t :: rest) : I.walk inner frame index false s = (index, s) := by
  have hturn : I.turn inner frame index t false s = .halt s := by
    cases frame with
    | top => exact hcloses.elim
    | procedure =>
        change t = Keyword.finish.token at hcloses
        simp [Interpreter.turn, Interpreter.active, hcloses, Frame.isNested]
    | loop =>
        change t = Token.closing at hcloses
        simp [Interpreter.turn, Interpreter.active, hcloses]
  rw [Interpreter.walk_of_ahead_cons h (Interpreter.exhausted_eq_false hlimit), hturn]

theorem enter_snd (hfollows : Follows I library inner below) {close : Token} {start : Nat}
    {body : List Statement} (hcloses : Closes frame close) (hstands : Stands I close start body)
    (hshelved : Shelved I s.procedures library) (token : Token) :
    (Interpreter.enter inner token frame start s).2 =
      after I s (nested below (.depthLimit token.text) close body) := by
  cases inner with
  | none =>
      cases below with
      | none => simp [Interpreter.enter, nested]
      | some meaning => exact hfollows.elim
  | some run =>
      cases below with
      | none => exact hfollows.elim
      | some meaning =>
          have hrun := hfollows frame close start body s hcloses hstands hshelved
          simp [Interpreter.enter, nested, hrun]

/-- Passing over a body leaves the cursor at the closing bracket, whether the body was run, was
refused, or was to be passed over no times at all. -/
theorem passes_eq (hlimit : I.limits.steps = none) (hfollows : Follows I library inner below)
    {start : Nat} {body : List Statement} (hstands : Stands I .closing start body) (count : Nat)
    (hshelved : Shelved I s.procedures library) :
    I.passes inner start count (start + (blockTokens body).length) s =
      (start + (blockTokens body).length, after I s (passes below body count)) := by
  induction count generalizing s with
  | zero => simp [Interpreter.passes, passes]
  | succ count ih =>
      rw [Interpreter.passes_of_running (Interpreter.exhausted_eq_false hlimit)]
      cases inner with
      | none =>
          cases below with
          | none =>
              obtain ⟨hbody, rest, hahead⟩ := hstands
              simp [Interpreter.enter, passes, nested, close_block hbody hahead]
          | some meaning => exact hfollows.elim
      | some run =>
          cases below with
          | none => exact hfollows.elim
          | some meaning =>
              have hrun := hfollows .loop .closing start body s.tick rfl hstands hshelved
              have hrest := ih (s := after I s.tick (meaning .closing body)) hshelved
              simp [Interpreter.enter, hrun, hrest, passes, nested]

theorem respects_of_shelved {procedures : Procedures} (h : Shelved I procedures library) :
    procedures.Respects I.table := by
  intro name start hfind
  rcases lookup_of_shelved h name with ⟨hnone, _⟩ | ⟨_, _, _, _, hprimitive, _⟩
  · rw [hnone] at hfind
    cases hfind
  · exact hprimitive

/-- A loop runs its body and consumes the tokens up to its closing bracket. -/
theorem repetition_eq (hlimit : I.limits.steps = none) (hfollows : Follows I library inner below)
    (hshelved : Shelved I s.procedures library) {count : Token} {body : List Statement}
    {next : Option Token} (hst : (Statement.loop count body).WellFormed I.table next)
    (h : I.ahead index = (Statement.loop count body).tokens ++ rest) :
    I.repetition inner index s.tick = (3 + (blockTokens body).length,
      after I s ((Statement.loop count body).meaning I.table library below next)) := by
  have hhead : I.ahead index = [Keyword.repetition.token, count, .opening] ++
      (blockTokens body ++ .closing :: rest) := by
    simpa [Statement.tokens] using h
  have hcount : I.tokens[index + 1]? = some count := by
    simp [Interpreter.getElem?_add, hhead]
  have hopening : I.tokens[index + 2]? = some .opening := by
    simp [Interpreter.getElem?_add, hhead]
  have hbody : I.ahead (index + 3) = blockTokens body ++ .closing :: rest :=
    Interpreter.ahead_of_append hhead
  have hstands : Stands I .closing (index + 3) body := ⟨hst.2, rest, hbody⟩
  have hconsumed : index + 3 + (blockTokens body).length - index =
      3 + (blockTokens body).length := by omega
  cases hleading : Integer.leading? count.text with
  | none =>
      simp [Interpreter.repetition, hcount, hopening, hleading, Interpreter.passes,
        close_block hst.2 hbody, hconsumed, Statement.meaning]
  | some n =>
      have hpasses := passes_eq hlimit hfollows hstands n.toNat (s := s.tick) hshelved
      simp [Interpreter.repetition, hcount, hopening, hleading, close_block hst.2 hbody,
        hpasses, hconsumed, Statement.meaning]

/-- A statement moves the cursor past its own tokens and does what it means. -/
theorem walk_statement (hlimit : I.limits.steps = none) (hfollows : Follows I library inner below)
    (hshelved : Shelved I s.procedures library) {st : Statement}
    (hst : st.WellFormed I.table rest.head?) (h : I.ahead index = st.tokens ++ rest) :
    I.walk inner frame index false s =
      I.walk inner frame (index + st.tokens.length) false
        (after I s (st.meaning I.table library below rest.head?)) := by
  have hticked : Shelved I s.tick.procedures library := hshelved
  have hrespects := respects_of_shelved hticked
  have hrunning : I.exhausted s = false := Interpreter.exhausted_eq_false hlimit
  cases st with
  | plain name =>
      obtain ⟨hname, command, hcommand⟩ := hst
      have horder : IsOrder I.table [name] command := .plain hname hcommand
      rw [Interpreter.walk_order horder hrunning hrespects h]
      simp [Statement.meaning, Statement.tokens, hcommand]
  | numeric name argument =>
      obtain ⟨hname, ⟨make, hmake⟩, x, hx⟩ := hst
      have horder : IsOrder I.table [name, argument] (make x) := .numeric hname hmake hx
      rw [Interpreter.walk_order horder hrunning hrespects h]
      simp [Statement.meaning, Statement.tokens, hmake, hx]
  | bare name =>
      obtain ⟨hname, ⟨make, hmake⟩, hnext⟩ := hst
      have hargument : I.tokens[index + 1]? = rest.head? := by
        simp [Interpreter.getElem?_add, h, Statement.tokens, List.head?_eq_getElem?]
      have hinvoke : I.invoke inner index name s.tick =
          (0, after I s ((Statement.bare name).meaning I.table library below rest.head?)) := by
        rw [Interpreter.invoke_of_primitive hrespects hmake]
        cases hhead : rest.head? with
        | none =>
            rw [hhead] at hargument
            simp [Interpreter.primitive, hmake, hargument, Statement.meaning]
        | some argument =>
            rw [hhead] at hargument
            have hnumber := hnext argument hhead
            simp [Interpreter.primitive, hmake, hargument, hnumber, Statement.meaning]
      rw [Interpreter.walk_of_name hrunning hname h hinvoke]
      rfl
  | save =>
      rw [Interpreter.walk_order .save hrunning hrespects h]
      simp [Statement.meaning, Statement.tokens]
  | paint colour =>
      rw [Interpreter.walk_order (.background colour) hrunning hrespects h]
      simp [Statement.meaning, Statement.tokens]
  | loop count body =>
      have hrepetition := repetition_eq hlimit hfollows hshelved hst h
      have hlength : index + (Statement.loop count body).tokens.length =
          index + 1 + (3 + (blockTokens body).length) := by
        simp only [Statement.tokens, List.length_append, List.length_cons, List.length_nil]
        omega
      rw [Interpreter.walk_of_ahead_cons h hrunning, hlength]
      simp [Interpreter.turn, Interpreter.active, hrepetition]
  | word name =>
      obtain ⟨hname, hprimitive⟩ := hst
      have hinvoke : I.invoke inner index name s.tick =
          (0, after I s ((Statement.word name).meaning I.table library below rest.head?)) := by
        rcases lookup_of_shelved hticked name.text with
          ⟨hnone, hlookup⟩ | ⟨start, body, hsome, hlookup, _, hstands⟩
        · simp [Interpreter.invoke, hnone, Interpreter.primitive, hprimitive, Statement.meaning,
            hlookup]
        · have hcloses : Closes .procedure Keyword.finish.token := rfl
          have henter := enter_snd hfollows hcloses hstands hticked name
          simp [Interpreter.invoke, hsome, henter, Statement.meaning, hlookup]
      rw [Interpreter.walk_of_name hrunning hname h hinvoke]
      rfl

/-- The statements of a block are run one after the other. -/
theorem walk_block (hlimit : I.limits.steps = none) (hfollows : Follows I library inner below)
    (hshelved : Shelved I s.procedures library) {block : List Statement} {next : Option Token}
    (hnext : rest.head? = next) (hblock : BlockWellFormed I.table next block)
    (h : I.ahead index = blockTokens block ++ rest) :
    I.walk inner frame index false s =
      I.walk inner frame (index + (blockTokens block).length) false
        (after I s (blockMeaning I.table library below next block)) := by
  induction block generalizing index s with
  | nil => simp [blockMeaning, blockTokens]
  | cons st block ih =>
      obtain ⟨hst, hblock⟩ := hblock
      have hhead : (blockTokens block ++ rest).head? = (blockTokens block).head?.or next := by
        rw [List.head?_append, hnext]
      rw [blockTokens, List.append_assoc] at h
      rw [← hhead] at hst
      have hafter : Shelved I (after I s (st.meaning I.table library below
          (blockTokens block ++ rest).head?)).procedures library := hshelved
      rw [walk_statement hlimit hfollows hshelved hst h,
        ih hafter hblock (Interpreter.ahead_of_append h)]
      simp [blockMeaning, blockTokens, hnext, Nat.add_assoc]

/-- At every depth, frames do what bodies mean. -/
theorem follows_below (hlimit : I.limits.steps = none) (library : Library) (room : Nat) :
    Follows I library (I.below room) (deeper I.table library room) := by
  induction room with
  | zero => trivial
  | succ room ih =>
      intro frame close start body s hcloses hstands hshelved
      obtain ⟨hbody, rest, hahead⟩ := hstands
      have hclose := Interpreter.ahead_of_append hahead
      have hnext : (close :: rest).head? = some close := rfl
      rw [Interpreter.runWithin_eq, walk_block hlimit ih hshelved hnext hbody hahead,
        walk_of_closes hlimit hcloses hclose]

/-- A definition is refused by the tree for the reason the session notes. -/
theorem define_eq (hshelved : Shelved I s.procedures library) (name : Token) (start : Nat) :
    s.define I.table name start =
      match refusal? I.table library name with
      | some reason => s.skip reason
      | none => { s with procedures := ⟨(name.text, start) :: s.procedures.bodies⟩ } := by
  have hcontains : s.procedures.contains name.text = (library.lookup name.text).isSome := by
    rcases lookup_of_shelved hshelved name.text with
      ⟨hnone, hlookup⟩ | ⟨_, _, hsome, hlookup, _, _⟩
    · simp [Procedures.contains, hnone, hlookup]
    · simp [Procedures.contains, hsome, hlookup]
  unfold Session.define Procedures.define refusal?
  rw [hcontains]
  split_ifs <;> rfl

theorem find?_of_refusal?_eq_none {name : Token} {table : CommandTable}
    (h : refusal? table library name = none) : table.find? name.text = none := by
  unfold refusal? at h
  split_ifs at h with hcontains
  simpa [CommandTable.contains] using hcontains

/-- A definition at the top level is stepped over, and its name is taken if it is free. -/
theorem walk_definition (hlimit : I.limits.steps = none) {name : Token} {body : List Statement}
    (hbody : BlockWellFormed I.table (some Keyword.finish.token) body)
    (h : I.ahead index = (Item.definition name body).tokens ++ rest) :
    I.walk inner .top index false s =
      I.walk inner .top (index + (Item.definition name body).tokens.length) false
        (s.define I.table name (index + 2)) := by
  have hhead : I.ahead index = [Keyword.define.token, name] ++
      (blockTokens body ++ Keyword.finish.token :: rest) := by
    simpa [Item.tokens] using h
  have hbodyAhead : I.ahead (index + 2) = blockTokens body ++ Keyword.finish.token :: rest :=
    Interpreter.ahead_of_append hhead
  have hfinish := Interpreter.ahead_of_append hbodyAhead
  have hname : I.tokens[index + 1]? = some name := by
    simp [Interpreter.getElem?_add, hhead]
  have hroom : index + 2 < I.tokens.size := by
    have hlt := Interpreter.lt_size_of_ahead_cons hfinish
    omega
  have hstart : I.turn inner .top index Keyword.define.token false s =
      .advance 1 true (s.define I.table name (index + 2)) := by
    simp [Interpreter.turn, Interpreter.active, Interpreter.definition, hname, hroom]
  have hend (t : Session σ) (i : Nat) :
      I.turn inner .top i Keyword.finish.token true t = .advance 0 false t := by
    simp [Interpreter.turn, Interpreter.active, Frame.isNested]
  rw [Interpreter.walk_of_ahead_cons hhead (Interpreter.exhausted_eq_false hlimit), hstart]
  change I.walk inner .top (index + 2) true _ = _
  rw [Interpreter.walk_defining hbodyAhead (block_ne_finish hbody)
      (Interpreter.exhausted_eq_false hlimit),
    Interpreter.walk_of_ahead_cons hfinish (Interpreter.exhausted_eq_false hlimit), hend]
  change I.walk inner .top (index + 2 + (blockTokens body).length + 1) false _ = _
  have hlength : index + (Item.definition name body).tokens.length =
      index + 2 + (blockTokens body).length + 1 := by
    simp only [Item.tokens, List.length_append, List.length_cons, List.length_nil]
    omega
  rw [hlength]

/-- The top level of a script does what the script means and leaves the procedures of its final
library behind. -/
theorem walk_script (hlimit : I.limits.steps = none) (room : Nat) {script : Script}
    {next : Option Token} (hnext : rest.head? = next)
    (hscript : script.WellFormed I.table next) (hshelved : Shelved I s.procedures library)
    (h : I.ahead index = script.tokens ++ rest) :
    ∃ procedures, Shelved I procedures (script.meaning I.table room next library).2 ∧
      I.walk (I.below room) .top index false s =
        I.walk (I.below room) .top (index + script.tokens.length) false
          (after I { s with procedures := procedures }
            (script.meaning I.table room next library).1) := by
  induction script generalizing index s library with
  | nil => exact ⟨s.procedures, hshelved, by simp [Script.meaning, Script.tokens]⟩
  | cons item script ih =>
      have hsplit : I.ahead index = item.tokens ++ (Script.tokens script ++ rest) := by
        simpa [Script.tokens] using h
      have hrest := Interpreter.ahead_of_append hsplit
      have hlength : index + (Script.tokens (item :: script)).length =
          index + item.tokens.length + (Script.tokens script).length := by
        simp [Script.tokens, Nat.add_assoc]
      rw [hlength]
      cases item with
      | definition name body =>
          obtain ⟨hbody, hscript⟩ := hscript
          rw [walk_definition hlimit hbody hsplit, define_eq hshelved]
          cases hrefusal : refusal? I.table library name with
          | some reason =>
              have hskip : Shelved I (s.skip reason).procedures library := hshelved
              obtain ⟨procedures, hfinal, hwalk⟩ := ih hscript hskip hrest
              refine ⟨procedures, ?_, ?_⟩
              · simpa [Script.meaning, hrefusal] using hfinal
              · simp only [hwalk, Script.meaning, hrefusal, after_append, after_note]
                rfl
          | none =>
              have hstands : Stands I Keyword.finish.token (index + 2) body := by
                have hhead : I.ahead index = [Keyword.define.token, name] ++
                    (blockTokens body ++ Keyword.finish.token ::
                      (Script.tokens script ++ rest)) := by
                  simpa [Item.tokens] using hsplit
                exact ⟨hbody, _, Interpreter.ahead_of_append hhead⟩
              let t : Session σ :=
                { s with procedures := ⟨(name.text, index + 2) :: s.procedures.bodies⟩ }
              have hadded : Shelved I t.procedures ((name.text, body) :: library) :=
                .cons ⟨rfl, find?_of_refusal?_eq_none hrefusal, hstands⟩ hshelved
              obtain ⟨procedures, hfinal, hwalk⟩ := ih hscript hadded hrest
              refine ⟨procedures, ?_, ?_⟩
              · simpa [Script.meaning, hrefusal] using hfinal
              · simp only [Script.meaning, hrefusal]
                exact hwalk
      | statement st =>
          obtain ⟨hst, hscript⟩ := hscript
          have hhead : (Script.tokens script ++ rest).head? =
              (Script.tokens script).head?.or next := by
            rw [List.head?_append, hnext]
          rw [← hhead] at hst
          have hafter : Shelved I (after I s (st.meaning I.table library
              (deeper I.table library room) (Script.tokens script ++ rest).head?)).procedures
              library := hshelved
          obtain ⟨procedures, hfinal, hwalk⟩ := ih hscript hafter hrest
          refine ⟨procedures, ?_, ?_⟩
          · simpa [Script.meaning] using hfinal
          · rw [walk_statement hlimit (follows_below hlimit library room) hshelved hst hsplit]
            simp only [Script.meaning, after_append, ← hhead]
            exact hwalk

end Running

theorem names_eq_of_shelved {σ : Type u} {I : Interpreter σ} {procedures : Procedures}
    {library : Library} (h : Shelved I procedures library) :
    procedures.names = (library.map Prod.fst).mergeSort := by
  have hkeys : procedures.bodies.map Prod.fst = library.map Prod.fst := by
    obtain ⟨bodies⟩ := procedures
    change List.Forall₂ _ bodies library at h
    induction h with
    | nil => rfl
    | cons hhead _ ih => simp_all
  rw [Procedures.names, hkeys]

/-- A structured script is run as its tree says: the interpreter gives the turtle the same commands
in the same order, notes the same reasons for stepping over tokens, and has the same procedures in
the end. -/
theorem record_tokens (table : CommandTable) (depth : Nat) (script : Script)
    (hscript : script.WellFormed table none) :
    (Program.mk script.tokens.toArray).record table ⟨depth, none⟩ =
      ((script.record table depth).1.toArray, (script.record table depth).2) := by
  let I : Interpreter (Array Command) := ⟨script.tokens.toArray, table, ⟨depth, none⟩, Array.push⟩
  have hahead : I.ahead 0 = script.tokens ++ [] := by
    simp [Interpreter.ahead, I]
  have hnext : ([] : List Token).head? = none := rfl
  have hempty : Shelved I (Session.new (#[] : Array Command)).procedures [] := .nil
  obtain ⟨procedures, hfinal, hwalk⟩ :=
    walk_script (I := I) rfl depth hnext hscript hempty hahead
  have hsize : I.tokens.size ≤ 0 + script.tokens.length := by simp [I]
  rw [Interpreter.walk_of_size_le hsize] at hwalk
  have hrun : I.run .top 0 (.new #[]) = _ := (Interpreter.runWithin_eq depth 0).trans hwalk
  have hnames := names_eq_of_shelved hfinal
  rw [Program.record_eq_session]
  change ((I.run .top 0 (.new #[])).2.turtle, (I.run .top 0 (.new #[])).2.report) = _
  rw [hrun]
  simp [Session.report, after, Session.new, Script.record, hnames, I]

/-- A procedure that calls itself and, before it is defined, another one; the other one paints with
a keyword and ends in a primitive without its number. A loop calls them and skips a loop. -/
def winding : Script :=
  [.definition ⟨"f"⟩ [.numeric ⟨"fd"⟩ ⟨"10"⟩, .word ⟨"g"⟩, .word ⟨"f"⟩],
   .statement (.word ⟨"f"⟩),
   .definition ⟨"g"⟩ [.paint ⟨"to"⟩, .bare ⟨"rt"⟩],
   .statement (.loop ⟨"2"⟩ [.word ⟨"f"⟩, .loop ⟨"x"⟩ [.plain ⟨"pu"⟩]]),
   .statement (.bare ⟨"fd"⟩)]

theorem record_tokens_winding :
    winding.WellFormed .standard none ∧
      (Program.mk winding.tokens.toArray).record .standard ⟨3, none⟩ =
        ((winding.record .standard 3).1.toArray, (winding.record .standard 3).2) := by
  have hten : ∃ x, Number.finite? "10" = some x :=
    Option.isSome_iff_exists.mp (by decide +kernel)
  have hend : ∀ t, some Keyword.finish.token = some t → Number.finite? t.text = none := by
    intro t ht
    cases ht
    have hliteral : Number.literal? Keyword.finish.token.text = none := by decide
    simp [Number.finite?, Number.read?, hliteral]
  have hcolour : IsOperand ⟨"to"⟩ := by decide
  have hword : (Statement.word ⟨"f"⟩).WellFormed .standard none := ⟨by decide, rfl⟩
  have hloop : (Statement.loop ⟨"2"⟩ [.word ⟨"f"⟩, .loop ⟨"x"⟩ [.plain ⟨"pu"⟩]]).WellFormed
      .standard none :=
    ⟨by decide, hword, ⟨by decide, ⟨by decide, _, rfl⟩, trivial⟩, trivial⟩
  have hwell : winding.WellFormed .standard none :=
    ⟨⟨⟨by decide, ⟨_, rfl⟩, hten⟩, ⟨by decide, rfl⟩, hword, trivial⟩, hword,
      ⟨hcolour, ⟨by decide, ⟨_, rfl⟩, hend⟩, trivial⟩, hloop,
      ⟨by decide, ⟨_, rfl⟩, by intro t ht; cases ht⟩, trivial⟩
  exact ⟨hwell, record_tokens .standard 3 winding hwell⟩

end Structured

end TurtleScript
