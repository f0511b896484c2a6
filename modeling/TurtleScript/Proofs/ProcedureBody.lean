import TurtleScript.Proofs.LoopEnd

/-!
The body of a procedure, from its first token to the next `end`. Its bounds are found in two ways:
where the script itself passes the definition, every token is suppressed until an `end` is met; a
call stops at the first `end` its own cursor stands on. No call stops before the next `end`, and it
stops there, with nothing beyond it stood on, just if no token that it runs takes the cursor past.

The tokens that do are found one by one: a keyword just before the `end` that takes it as its input,
and a loop that does not end before it, since its bracket lies behind it or a pass runs on past its
own bracket.
-/

namespace TurtleScript

universe u

namespace ProcedureBody

open Interpreter (Runner Turn passCount le_walk)
open LoopEnd (Orderly)
open Registry (Sound sound_of_reached mem_of_find?)
open StoppingPlace

/-- The index of the first `end` at or after an index, or the number of tokens if there is none. -/
def nextEnd (tokens : Array Token) (start : Nat) : Nat :=
  start + (tokens.toList.drop start).findIdx (· == Keyword.finish.token)

section Text

variable {tokens : Array Token} {start : Nat}

theorem le_nextEnd : start ≤ nextEnd tokens start :=
  Nat.le_add_right _ _

theorem nextEnd_le_size (h : start ≤ tokens.size) : nextEnd tokens start ≤ tokens.size := by
  have hle : (tokens.toList.drop start).findIdx (· == Keyword.finish.token) ≤
      (tokens.toList.drop start).length := List.findIdx_le_length
  rw [List.length_drop, Array.length_toList] at hle
  unfold nextEnd
  omega

/-- The tokens run out unless an `end` stands there. -/
theorem end_of_nextEnd_lt (h : nextEnd tokens start < tokens.size) :
    tokens[nextEnd tokens start]? = some Keyword.finish.token := by
  unfold nextEnd at h ⊢
  have hlt : (tokens.toList.drop start).findIdx (· == Keyword.finish.token) <
      (tokens.toList.drop start).length := by
    rw [List.length_drop, Array.length_toList]
    omega
  have hfound := List.findIdx_getElem (w := hlt)
  rw [← Array.getElem?_toList, ← List.getElem?_drop, List.getElem?_eq_getElem hlt]
  simpa using hfound

/-- There is no `end` before the next one. -/
theorem nextEnd_le {index : Nat} (hstart : start ≤ index)
    (h : tokens[index]? = some Keyword.finish.token) : nextEnd tokens start ≤ index := by
  apply Nat.le_of_not_lt
  intro hlt
  have hbefore : index - start <
      (tokens.toList.drop start).findIdx (· == Keyword.finish.token) := by
    unfold nextEnd at hlt
    omega
  have hnot := List.not_of_lt_findIdx hbefore
  have hget : (tokens.toList.drop start)[index - start]? = some Keyword.finish.token := by
    rw [List.getElem?_drop, Nat.add_sub_cancel' hstart, Array.getElem?_toList]
    exact h
  obtain ⟨_, hat⟩ := List.getElem?_eq_some_iff.mp hget
  rw [hat] at hnot
  simp at hnot

/-- A procedure body is never left before its `end`. -/
theorem nextEnd_le_stop (table : CommandTable) (room : Nat) (hstart : start ≤ tokens.size) :
    nextEnd tokens start ≤ stop tokens table room .procedure start ∧
      (stop tokens table room .procedure start < tokens.size →
        tokens[stop tokens table room .procedure start]? = some Keyword.finish.token) := by
  apply stopFrom_elim (P := fun index _ => start ≤ index)
    (Q := fun n => nextEnd tokens start ≤ n ∧
      (n < tokens.size → tokens[n]? = some Keyword.finish.token))
  · intro index token defining consumed defining' hfirst _ _
    omega
  · intro index token defining hfirst htoken hhalt
    have hrole : token.role = .keyword .finish := by
      rcases role_of_halt hhalt with hrole | ⟨-, hframe⟩
      · exact hrole
      · cases hframe
    rw [Token.role_eq_keyword_iff.mp hrole] at htoken
    exact ⟨nextEnd_le hfirst htoken, fun _ => htoken⟩
  · intro index defining _ _
    exact ⟨nextEnd_le_size hstart, fun h => absurd h (Nat.lt_irrefl _)⟩
  · exact Nat.le_refl start

end Text

variable {σ : Type u} {I : Interpreter σ} {inner : Option (Runner σ)} {frame : Frame}
  {index : Nat} {defining : Bool} {s : Session σ}

/-- The places where the cursor of a frame stands while the frame is run, and whether the token
there is suppressed as part of a definition. -/
def trail (I : Interpreter σ) (inner : Option (Runner σ)) (frame : Frame) (index : Nat)
    (defining : Bool) (s : Session σ) : List (Nat × Bool) :=
  if h : index < I.tokens.size then
    if I.exhausted s then []
    else
      (index, defining && I.tokens[index].role != .keyword .finish) ::
        match I.turn inner frame index I.tokens[index] defining s with
        | .halt _ => []
        | .advance consumed defining s => trail I inner frame (index + 1 + consumed) defining s
  else []
termination_by I.tokens.size - index

theorem trail_of_size_le (h : I.tokens.size ≤ index) :
    trail I inner frame index defining s = [] := by
  rw [trail, dif_neg (by omega)]

theorem trail_of_running {token : Token} (htoken : I.tokens[index]? = some token)
    (hs : I.exhausted s = false) :
    trail I inner frame index defining s =
      (index, defining && token.role != .keyword .finish) ::
        match I.turn inner frame index token defining s with
        | .halt _ => []
        | .advance consumed defining s =>
            trail I inner frame (index + 1 + consumed) defining s := by
  obtain ⟨hlt, hget⟩ := Array.getElem?_eq_some_iff.mp htoken
  have htrail := trail.eq_def I inner frame index defining s
  rw [dif_pos hlt, if_neg (by simp [hs]), hget] at htrail
  exact htrail

/-- All places where a cursor stands lie between where its frame starts and where it stops. -/
theorem bounds_of_mem_trail {place : Nat × Bool}
    (hplace : place ∈ trail I inner frame index defining s) :
    index ≤ place.1 ∧ place.1 ≤ (I.walk inner frame index defining s).1 := by
  fun_induction Interpreter.walk I inner frame index defining s with
  | case1 index defining s hlt hexhausted =>
      rw [trail, dif_pos hlt, if_pos hexhausted] at hplace
      cases hplace
  | case2 index defining s hlt hrunning next hturn =>
      rw [trail_of_running (Array.getElem?_eq_getElem hlt) (by simpa using hrunning), hturn,
        List.mem_singleton] at hplace
      rw [hplace]
      exact ⟨Nat.le_refl index, Nat.le_refl index⟩
  | case3 index defining s hlt hrunning consumed defining' next hturn ih =>
      rw [trail_of_running (Array.getElem?_eq_getElem hlt) (by simpa using hrunning), hturn,
        List.mem_cons] at hplace
      rcases hplace with rfl | hlater
      · have hnext := le_walk I inner frame (index + 1 + consumed) defining' next
        simp only
        omega
      · obtain ⟨hfirst, hstop⟩ := ih hlater
        exact ⟨by omega, hstop⟩
  | case4 index defining s hlt =>
      rw [trail_of_size_le (Nat.le_of_not_lt hlt)] at hplace
      cases hplace

/-- A token that takes a frame past the `end` at `last`: a keyword directly before it that takes it
for its input, or a loop that does not end before it. A `to` takes no name, and so no `end`, if it is
followed by the last token. -/
inductive Overruns (tokens : Array Token) (inner : Option (Nat → Nat)) (last index : Nat) : Prop
  | colour (hnext : index + 1 = last) (htoken : tokens[index]? = some Keyword.background.token)
  | count (hnext : index + 1 = last) (htoken : tokens[index]? = some Keyword.repetition.token)
  | name (hnext : index + 1 = last) (htoken : tokens[index]? = some Keyword.define.token)
      (hroom : last + 1 < tokens.size)
  | loop {word : Token} (htoken : tokens[index]? = some Keyword.repetition.token)
      (hword : tokens[index + 1]? = some word) (hbody : tokens[index + 2]? = some .opening)
      (hend : last ≤ loopEnd tokens inner index word)

section Overrunning

variable {tokens : Array Token} {table : CommandTable} {room last : Nat}

/-- A loop that closes before the `end` also ends before it, unless it makes a pass over a body in
which a keyword can take the cursor past the bracket. -/
theorem loopEnd_lt {word : Token} (hclose : Bracket.close tokens (index + 3) < last)
    (hlast : last < tokens.size)
    (h : passCount word = 0 ∨ room = 0 ∨
      Orderly tokens (index + 3) (Bracket.close tokens (index + 3))) :
    loopEnd tokens (bodyStop tokens table room) index word < last := by
  rcases h with hcount | rfl | horderly
  · rw [loopEnd_of_no_pass (Or.inl hcount)]
    exact hclose
  · rw [bodyStop, loopEnd_of_no_pass (Or.inr rfl)]
    exact hclose
  · have hwithin : LoopEnd.EndsWithin tokens (bodyStop tokens table room) :=
      LoopEnd.endsWithin_bodyStop room
    exact Nat.lt_of_le_of_lt (hwithin index word (Nat.lt_trans hclose hlast) horderly) hclose

/-- A keyword takes what follows it for its input, even an `end`. -/
theorem loopInput_pos (hnext : index + 1 < tokens.size) :
    0 < loopInput tokens (bodyStop tokens table room) index := by
  by_cases hbody : tokens[index + 2]? = some .opening
  · have hfrom : index + 3 ≤ loopEnd tokens (bodyStop tokens table room) index tokens[index + 1] :=
      LoopEnd.le_loopEnd hbody
    rw [loopInput_of_body _ (Array.getElem?_eq_getElem hnext) hbody]
    omega
  · rw [loopInput_of_no_body _ hbody]
    exact Nat.one_pos

/-- Where the cursor moves on from a token that is run, it moves past an `end` ahead of it just if
the token overruns that `end`. -/
theorem last_lt_iff {consumed : Nat} {token : Token} {defining' : Bool} (hindex : index < last)
    (hend : tokens[last]? = some Keyword.finish.token) (htoken : tokens[index]? = some token)
    (hruns : (defining && token.role != .keyword .finish) = false)
    (hmove : move tokens table (bodyStop tokens table room) frame index token defining =
      some (consumed, defining')) :
    last < index + 1 + consumed ↔ Overruns tokens (bodyStop tokens table room) last index := by
  have hlast : last < tokens.size := (Array.getElem?_eq_some_iff.mp hend).1
  have hkeyword (k : Keyword) (hrole : token.role = .keyword k) : tokens[index]? = some k.token := by
    rw [Token.role_eq_keyword_iff.mp hrole] at htoken
    exact htoken
  constructor
  · intro hpast
    apply Classical.byContradiction
    intro hnot
    apply absurd hpast
    apply Nat.not_lt.mpr
    refine move_le hindex hend (by simp) ?_ ?_ hmove
    · intro hnext
      exact ⟨fun hrole => hnot (.colour hnext (hkeyword _ hrole)),
        fun hrole => hnot (.count hnext (hkeyword _ hrole)),
        fun hroom hrole => hnot (.name hnext (hkeyword _ hrole) hroom)⟩
    · intro hrole word hword hbody
      apply Nat.lt_of_not_le
      exact fun hle => hnot (.loop (hkeyword _ hrole) hword hbody hle)
  · intro hover
    rw [move, if_neg (by rw [hruns]; exact Bool.false_ne_true)] at hmove
    cases hover with
    | colour hnext hother =>
        obtain rfl := Option.some.inj (htoken.symm.trans hother)
        simp only [Keyword.role_token, if_pos (show index + 1 < tokens.size by omega)] at hmove
        cases hmove
        omega
    | count hnext hother =>
        obtain rfl := Option.some.inj (htoken.symm.trans hother)
        have hpos : 0 < loopInput tokens (bodyStop tokens table room) index :=
          loopInput_pos (by omega)
        simp only [Keyword.role_token] at hmove
        cases hmove
        omega
    | name hnext hother hroom =>
        obtain rfl := Option.some.inj (htoken.symm.trans hother)
        simp only [Keyword.role_token, if_pos (show index + 2 < tokens.size by omega)] at hmove
        cases hmove
        omega
    | loop hother hword hbody hle =>
        obtain rfl := Option.some.inj (htoken.symm.trans hother)
        simp only [Keyword.role_token, loopInput_of_body _ hword hbody] at hmove
        cases hmove
        omega

/-- A token that ends a procedure does not overrun anything. -/
theorem not_overruns_of_halt {token : Token} (htoken : tokens[index]? = some token)
    (hhalt : move tokens table (bodyStop tokens table room) .procedure index token defining = none) :
    ¬ Overruns tokens (bodyStop tokens table room) last index := by
  have hrole : token.role = .keyword .finish := by
    rcases role_of_halt hhalt with hrole | ⟨-, hframe⟩
    · exact hrole
    · cases hframe
  rw [Token.role_eq_keyword_iff.mp hrole] at htoken
  intro hover
  cases hover with
  | colour _ hother | count _ hother | name _ hother _ | loop hother _ _ _ =>
      rw [htoken] at hother
      exact absurd hother (by decide)

end Overrunning

theorem forall_running_cons {P : Nat → Prop} {suppressed : Bool} {places : List (Nat × Bool)} :
    (∀ k, (k, false) ∈ (index, suppressed) :: places → P k) ↔
      (suppressed = false → P index) ∧ ∀ k, (k, false) ∈ places → P k := by
  constructor
  · intro h
    refine ⟨?_, fun k hk => h k (List.mem_cons_of_mem _ hk)⟩
    rintro rfl
    exact h index List.mem_cons_self
  · rintro ⟨hfirst, hlater⟩ k hk
    rcases List.mem_cons.mp hk with heq | hk
    · cases heq
      exact hfirst rfl
    · exact hlater k hk

/-- A frame that is not cut short stops at an `end` ahead of it or before it just if no token that it
runs overruns that `end`. -/
theorem walk_le_iff {room last : Nat} (hend : I.tokens[last]? = some Keyword.finish.token)
    (hindex : index ≤ last) (hs : Sound I.tokens I.table s.procedures)
    (huncut : (I.walk (I.below room) .procedure index defining s).2.truncated = false) :
    (I.walk (I.below room) .procedure index defining s).1 ≤ last ↔
      ∀ k, (k, false) ∈ trail I (I.below room) .procedure index defining s → k < last →
        ¬ Overruns I.tokens (bodyStop I.tokens I.table room) last k := by
  have hlast : last < I.tokens.size := (Array.getElem?_eq_some_iff.mp hend).1
  fun_induction Interpreter.walk I (I.below room) .procedure index defining s with
  | case1 index defining s hlt hexhausted => cases huncut
  | case2 index defining s hlt hrunning next hturn =>
      have htoken : I.tokens[index]? = some I.tokens[index] := Array.getElem?_eq_getElem hlt
      have hmove := turnMove_turn (steady I room) hlt hs (by rw [hturn]; exact huncut)
      rw [hturn] at hmove
      rw [trail_of_running htoken (by simpa using hrunning), hturn, forall_running_cons]
      refine iff_of_true hindex ⟨fun _ _ => not_overruns_of_halt htoken hmove.symm, ?_⟩
      intro k hk
      cases hk
  | case3 index defining s hlt hrunning consumed defining' next hturn ih =>
      have htoken : I.tokens[index]? = some I.tokens[index] := Array.getElem?_eq_getElem hlt
      have hrunning : I.exhausted s = false := by simpa using hrunning
      obtain ⟨hmove, hsound⟩ := move_of_advance (steady I room) hs htoken hrunning hturn huncut
      rw [trail_of_running htoken hrunning, hturn, forall_running_cons]
      have hbefore : index < last := by
        apply Nat.lt_of_le_of_ne hindex
        rintro rfl
        rw [hend] at htoken
        rw [← Option.some.inj htoken] at hmove
        simp [move, Frame.isNested] at hmove
      cases hruns : defining && I.tokens[index].role != .keyword .finish with
      | true =>
          rw [move, if_pos hruns] at hmove
          cases hmove
          refine (ih hbefore hsound huncut).trans (and_iff_right ?_).symm
          intro hnot
          cases hnot
      | false =>
          have hpast := last_lt_iff hbefore hend htoken hruns hmove
          by_cases hover : Overruns I.tokens (bodyStop I.tokens I.table room) last index
          · have hnext := le_walk I (I.below room) .procedure (index + 1 + consumed) defining' next
            have hbehind : last < index + 1 + consumed := hpast.mpr hover
            exact iff_of_false (by omega) fun h => h.1 rfl hbefore hover
          · have hnext : index + 1 + consumed ≤ last := Nat.not_lt.mp (mt hpast.mp hover)
            exact (ih hnext hsound huncut).trans (and_iff_right fun _ _ => hover).symm
  | case4 index defining s hlt => omega

/-- A definition suppresses the tokens up to the next `end`. -/
theorem trail_defining {last : Nat} (hindex : index ≤ last) (hlast : last ≤ I.tokens.size)
    (hend : ∀ k, index ≤ k → k < last → I.tokens[k]? ≠ some Keyword.finish.token)
    (hs : I.exhausted s = false) :
    trail I inner frame index true s =
      (List.range' index (last - index)).map (·, true) ++ trail I inner frame last true s := by
  induction hcount : last - index generalizing index with
  | zero =>
      obtain rfl : index = last := by omega
      rfl
  | succ count ih =>
      have hlt : index < I.tokens.size := by omega
      have htoken : I.tokens[index]? = some I.tokens[index] := Array.getElem?_eq_getElem hlt
      have hrole : I.tokens[index].role ≠ .keyword .finish := by
        intro hrole
        rw [Token.role_eq_keyword_iff.mp hrole] at htoken
        exact hend index (Nat.le_refl index) (by omega) htoken
      have hturn : I.turn inner frame index I.tokens[index] true s = .advance 0 true s := by
        simp [Interpreter.turn, hrole]
      have hrest : trail I inner frame (index + 1) true s =
          (List.range' (index + 1) count).map (·, true) ++ trail I inner frame last true s :=
        ih (by omega) (fun k hk hbelow => hend k (by omega) hbelow) (by omega)
      rw [trail_of_running htoken hs, hturn]
      simp [List.range'_succ, hrole, hrest]

/-- Where a definition is passed, the cursor stands on its `to`, then on each token of its body up
to the next `end`, all of which are suppressed. -/
theorem trail_definition {name : Token} {start : Nat} (htwo : 2 ≤ start)
    (hdefine : I.tokens[start - 2]? = some Keyword.define.token)
    (hname : I.tokens[start - 1]? = some name) (hstart : start < I.tokens.size)
    (hs : I.exhausted s = false) :
    trail I inner frame (start - 2) false s =
      (start - 2, false) ::
        ((List.range' start (nextEnd I.tokens start - start)).map (·, true) ++
          trail I inner frame (nextEnd I.tokens start) true (s.define I.table name start)) := by
  have hnext : start - 2 + 1 + 1 = start := by omega
  have hturn : I.turn inner frame (start - 2) Keyword.define.token false s =
      .advance 1 true (s.define I.table name start) := by
    have hword : I.tokens[start - 2 + 1]? = some name := by
      rw [← hname]
      congr 1
      omega
    have htwo : start - 2 + 2 = start := by omega
    simp [Interpreter.turn, Interpreter.active, Interpreter.definition, hword, htwo, hstart]
  have hdefined : I.exhausted (s.define I.table name start) = false :=
    Session.define_elim (P := fun t => I.exhausted t = false) (fun _ => hs) (fun _ => hs)
  rw [trail_of_running hdefine hs, hturn]
  simp only [hnext, Bool.false_and]
  rw [trail_defining le_nextEnd (nextEnd_le_size (Nat.le_of_lt hstart)) ?_ hdefined]
  intro k hk hbelow hfound
  exact absurd (nextEnd_le hk hfound) (Nat.not_le.mpr hbelow)

/-- A session in which a call is not cut short has not been cut short before. -/
theorem not_truncated_of_uncut {x : Machine.State σ} (hx : I.Reached x) {depth start : Nat}
    (hstart : start < I.tokens.size)
    (h : cutShort (callAt I depth frame start) x.session = false) :
    x.session.truncated = false := by
  rw [Bool.eq_false_iff]
  intro htruncated
  have hlowered : I.exhausted { x.session with truncated := false } = true :=
    exhausted_of_reached hx htruncated
  unfold cutShort callAt at h
  rw [Interpreter.runWithin_eq, Interpreter.walk_of_exhausted hstart hlowered] at h
  cases h

/-- The tokens that a call runs are those that its definition suppressed. In every state that is
reached, a frame that runs a procedure and is not cut short never stops before the next `end`, and
stops at an `end` unless the tokens run out. It stops at the next `end` just if no token that the
frame runs before it overruns it, and then its cursor has stood nowhere else than from its start to
there. Up to the same `end`, all tokens of a body are suppressed where its definition is passed by
the script itself. -/
theorem call_stays_in_body {x : Machine.State σ} (hx : I.Reached x) {start last : Nat}
    (hstart : start ≤ I.tokens.size) (hlast : nextEnd I.tokens start = last)
    (huncut : cutShort (callAt I x.depth .procedure start) x.session = false) :
    let room := I.limits.depth - x.depth
    let places := trail I (I.below room) .procedure start false x.session
    let stop := (callAt I x.depth .procedure start x.session).1
    (last ≤ stop ∧ (stop < I.tokens.size → I.tokens[stop]? = some Keyword.finish.token)) ∧
    (stop = last ↔ (last < I.tokens.size → ∀ k, (k, false) ∈ places → k < last →
      ¬ Overruns I.tokens (bodyStop I.tokens I.table room) last k)) ∧
    (stop = last → ∀ place ∈ places, start ≤ place.1 ∧ place.1 ≤ last) ∧
    ∀ name, x.session.procedures.find? name = some start →
      ∀ (inner : Option (Runner σ)) (s : Session σ), I.exhausted s = false →
        trail I inner .top (start - 2) false s =
          (start - 2, false) :: ((List.range' start (last - start)).map (·, true) ++
            trail I inner .top last true (s.define I.table ⟨name⟩ start)) := by
  intro room places stop
  have hstops : stop = StoppingPlace.stop I.tokens I.table room .procedure start :=
    callAt_fst hx x.depth .procedure start huncut
  obtain ⟨hbelow, hfinish⟩ := nextEnd_le_stop I.table room hstart
  rw [← hstops] at hbelow hfinish
  subst hlast
  have hwalk : stop = (I.walk (I.below room) .procedure start false x.session).1 :=
    congrArg Prod.fst (Interpreter.runWithin_eq room start)
  refine ⟨⟨hbelow, hfinish⟩, ?_, ?_, ?_⟩
  · by_cases hlast : nextEnd I.tokens start < I.tokens.size
    · have hs : x.session.truncated = false :=
        not_truncated_of_uncut hx (Nat.lt_of_le_of_lt le_nextEnd hlast) huncut
      unfold cutShort callAt at huncut
      rw [lowered_eq hs, Interpreter.runWithin_eq] at huncut
      have hwithin := walk_le_iff (end_of_nextEnd_lt hlast) le_nextEnd (sound_of_reached hx) huncut
      rw [← hwalk] at hwithin
      have hexact : stop = nextEnd I.tokens start ↔ stop ≤ nextEnd I.tokens start := by omega
      rw [hexact, hwithin]
      exact ⟨fun h _ => h, fun h => h hlast⟩
    · have hsize : stop ≤ I.tokens.size := by
        rw [hstops]
        exact stop_le_size
      exact iff_of_true (by omega) fun hlt => absurd hlt hlast
  · intro hstop place hplace
    have hbounds := bounds_of_mem_trail hplace
    rw [← hwalk, hstop] at hbounds
    exact hbounds
  · intro name hfind inner s hs
    have hentry := (sound_of_reached hx).entries name start (mem_of_find? hfind)
    exact trail_definition hentry.two_le hentry.defined hentry.named hentry.lt_size hs

/-- A procedure in which `end` is the colour of a background. -/
def painted : Interpreter (Array Command) where
  tokens := #[⟨"to"⟩, ⟨"p"⟩, ⟨"bckgr"⟩, ⟨"end"⟩, ⟨"fd"⟩, ⟨"1"⟩, ⟨"end"⟩]
  table := .standard
  limits := .standard
  obey := Array.push

/-- The definition ends at the `end` that a call takes for a colour. -/
theorem call_leaves_body_painted :
    let s := painted.afterCalls [(.top, 0)] (.new #[])
    painted.Reached (.atRest s) ∧ s.procedures.find? "p" = some 2 ∧
      cutShort (callAt painted 0 .procedure 2) s = false ∧
      nextEnd painted.tokens 2 = 3 ∧ (callAt painted 0 .procedure 2 s).1 = 6 ∧
      (4, false) ∈ trail painted (painted.below 512) .procedure 2 false s ∧
      trail painted (painted.below 512) .top 0 false (.new #[]) =
        [(0, false), (2, true), (3, false), (4, false), (6, false)] := by
  intro s
  have hreached : painted.Reached (.atRest s) :=
    ⟨#[], painted.leads_afterCalls [(.top, 0)] (.new #[])⟩
  refine ⟨hreached, ?_⟩
  decide +kernel

/-- A procedure with a loop, and a definition that stands inside it. -/
def looping : Interpreter (Array Command) where
  tokens := #[⟨"to"⟩, ⟨"p"⟩, ⟨"repeat"⟩, ⟨"2"⟩, .opening, ⟨"fd"⟩, ⟨"10"⟩, .closing, ⟨"to"⟩, ⟨"q"⟩,
    ⟨"bckgr"⟩, ⟨"end"⟩, ⟨"p"⟩]
  table := .standard
  limits := ⟨4, some 100⟩
  obey := Array.push

/-- The procedure is called again after the whole script. -/
theorem call_stays_in_body_looping :
    let s := looping.afterCalls [(.top, 0)] (.new #[])
    let places := trail looping (looping.below 4) .procedure 2 false s
    looping.Reached (.atRest s) ∧ nextEnd looping.tokens 2 = 11 ∧
      s.procedures.find? "p" = some 2 ∧
      cutShort (callAt looping 0 .procedure 2) s = false ∧
      (∀ k, (k, false) ∈ places → k < 11 →
        ¬ Overruns looping.tokens (bodyStop looping.tokens looping.table 4) 11 k) ∧
      (callAt looping 0 .procedure 2 s).1 = 11 ∧ ∀ place ∈ places, 2 ≤ place.1 ∧ place.1 ≤ 11 := by
  intro s places
  have hreached : looping.Reached (.atRest s) :=
    ⟨#[], looping.leads_afterCalls [(.top, 0)] (.new #[])⟩
  have hend : nextEnd looping.tokens 2 = 11 := by decide +kernel
  have huncut : cutShort (callAt looping 0 .procedure 2) s = false := by decide +kernel
  have hplaces : places = [(2, false), (8, false), (10, true), (11, false)] := by decide +kernel
  have hfind : s.procedures.find? "p" = some 2 := by decide +kernel
  have hclose : Bracket.close looping.tokens 5 = 7 := by decide +kernel
  have hbody : LoopEnd.Plain looping.tokens 5 7 := by decide
  have hover : ∀ k, (k, false) ∈ places → k < 11 →
      ¬ Overruns looping.tokens (bodyStop looping.tokens looping.table 4) 11 k := by
    intro k hk hlt hover
    obtain rfl | rfl : k = 2 ∨ k = 8 := by
      rw [hplaces] at hk
      simp at hk
      omega
    · cases hover with
      | colour hnext _ | count hnext _ | name hnext _ _ => exact absurd hnext (by decide)
      | @loop word _ _ _ hle =>
          have hends : loopEnd looping.tokens (bodyStop looping.tokens looping.table 4) 2 word <
              11 := loopEnd_lt (by rw [hclose]; decide) (by decide)
                (Or.inr (Or.inr (by rw [hclose]; exact hbody.toOrderly)))
          omega
    · cases hover with
      | colour hnext _ | count hnext _ | name hnext _ _ => exact absurd hnext (by decide)
      | loop hloop _ _ _ => exact absurd hloop (by decide)
  obtain ⟨-, hstays, hplace, -⟩ := call_stays_in_body hreached (by decide) hend huncut
  have hstop : (callAt looping 0 .procedure 2 s).1 = 11 := hstays.mpr fun _ => hover
  exact ⟨hreached, hend, hfind, huncut, hover, hstop, hplace hstop⟩

end ProcedureBody

end TurtleScript
