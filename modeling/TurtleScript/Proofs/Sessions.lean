import TurtleScript.Proofs.Interpreter.DepthCounter
import TurtleScript.Proofs.StoppingPlace

/-!
What holds of a session however often frames are run in it, and from wherever. The counter of open
frames stays between zero and its limit and is zero again whenever a run is over. With a limit on
steps, neither the steps nor the commands of all runs together exceed it. Reasons for skipping are
only added. Once a session has been cut short, nothing changes in it any more: every later run ends
at once, at the end of the tokens.
-/

namespace TurtleScript

universe u

namespace Sessions

open Machine

/-- The interpreter of a turtle that writes the commands down. -/
def recorder (tokens : Array Token) (table : CommandTable) (limits : Limits) :
    Interpreter (Array Command) :=
  ⟨tokens, table, limits, Array.push⟩

/-- Every command takes a step, and no step is taken beyond the limit. -/
theorem keeps_within {tokens : Array Token} {table : CommandTable} {limits : Limits} {most : Nat}
    (hlimit : limits.steps = some most) :
    (recorder tokens table limits).clocked.Keeps fun s =>
      s.turtle.size ≤ s.steps ∧ s.steps ≤ most := by
  have hroom {s : Session (Array Command)}
      (hrunning : (recorder tokens table limits).clocked.exhausted s = false) :
      s.steps < most := by
    have hexhausted : s.exhausted limits.steps = false := hrunning
    simpa [Session.exhausted, hlimit] using hexhausted
  exact {
    tick := fun hs hrunning => ⟨Nat.le_succ_of_le hs.1, hroom hrunning⟩
    give := by
      intro s command hs hrunning _
      refine ⟨?_, hroom hrunning⟩
      change (s.turtle.push command).size ≤ s.steps + 1
      rw [Array.size_push]
      exact Nat.succ_le_succ hs.1
    skip := fun _ hs => hs
    cut := fun hs _ => hs
    define := fun hs _ _ _ =>
      Session.define_elim
        (P := fun t : Session (Array Command) => t.turtle.size ≤ t.steps ∧ t.steps ≤ most)
        (fun _ => hs) fun _ => hs }

section

variable {σ : Type u} {I : Interpreter σ} {x y : State σ} {s : Session σ}

/-- What has been noted before stays at the front. -/
theorem keeps_skipped {C : Clocked σ} (noted : Array Skip) :
    C.Keeps fun s => noted.toList <+: s.skipped.toList := by
  have hskip {s : Session σ} (reason : Skip) (hs : noted.toList <+: s.skipped.toList) :
      noted.toList <+: (s.skip reason).skipped.toList := by
    change noted.toList <+: (s.skipped.push reason).toList
    rw [Array.toList_push]
    exact hs.trans (List.prefix_append _ _)
  exact {
    tick := fun hs _ => hs
    give := fun hs _ _ => hs
    skip := fun reason hs => hskip reason hs
    cut := fun hs _ => hs
    define := fun hs _ _ _ =>
      Session.define_elim (P := fun t => noted.toList <+: t.skipped.toList)
        (fun reason => hskip reason hs) fun _ => hs }

theorem cut_eq (h : s.truncated = true) : s.cut = s := by
  unfold Session.cut
  rw [← h]

/-- Without steps left, a step of the machine changes nothing in a session that has been cut
short. -/
theorem session_next_of_cut (hcut : x.session.truncated = true)
    (hexhausted : I.exhausted x.session = true) (hnext : I.next x = some y) :
    y.session = x.session := by
  obtain ⟨task, waiting, s⟩ := x
  have hsame : s.cut = s := cut_eq hcut
  change I.exhausted s = true at hexhausted
  cases task with
  | rest => cases hnext
  | read c =>
      cases htoken : I.tokens[c.index]? with
      | none =>
          simp only [Interpreter.next, htoken, Option.some.injEq] at hnext
          rw [← hnext]
      | some token =>
          simp only [Interpreter.next, htoken, hexhausted, if_true, Option.some.injEq] at hnext
          rw [← hnext]
          exact hsame
  | pass c left last =>
      cases left with
      | zero =>
          cases hnext
          rfl
      | succ left =>
          simp only [Interpreter.next, hexhausted, if_true, Option.some.injEq] at hnext
          rw [← hnext]
          exact hsame
  | leave stop =>
      cases waiting with
      | nil =>
          cases hnext
          rfl
      | cons first others =>
          cases first with
          | call c =>
              cases hnext
              rfl
          | loop c left =>
              cases hnext
              rfl

/-- In a session that has been cut short nothing changes any more. -/
theorem session_leads_of_cut (hcut : x.session.truncated = true)
    (hexhausted : I.exhausted x.session = true) (hleads : I.Leads x y) :
    y.session = x.session := by
  induction hleads with
  | refl => rfl
  | tail _ hmove ih =>
      cases hmove with
      | step hnext =>
          rw [← ih] at hcut hexhausted
          exact (session_next_of_cut hcut hexhausted hnext).trans ih
      | call frame start s => exact ih

theorem run_of_cut (hcut : s.truncated = true) (hexhausted : I.exhausted s = true)
    (frame : Frame) (start : Nat) : I.run frame start s = (I.tokens.size, s) := by
  rw [Interpreter.run, Interpreter.runWithin_eq]
  by_cases hlt : start < I.tokens.size
  · rw [Interpreter.walk_of_exhausted hlt hexhausted, cut_eq hcut]
  · rw [Interpreter.walk_of_size_le (Nat.le_of_not_lt hlt)]

end

/-- What holds of a session over any number of runs, in every state on the way. Each run leads from
a counter of zero back to zero. The counter stays between zero and the limit on depth, and is zero
at rest; steps and commands stay within the limit on steps; what was noted is kept in front of what
comes later; and after a cut the session stays as it is, and further runs end at the end of the
tokens. -/
theorem session_of_calls (tokens : Array Token) (table : CommandTable) (limits : Limits) :
    let I := recorder tokens table limits
    let new : Counting (Array Command) := ⟨0, .atRest (.new #[])⟩
    (∀ calls frame start,
      let s := I.afterCalls calls (.new #[])
      I.CountingLeads new ⟨0, .atRest s⟩ ∧
        I.CountingLeads ⟨0, .atRest s⟩ ⟨0, .atRest (I.run frame start s).2⟩) ∧
    ∀ m, I.CountingLeads new m →
      (0 ≤ m.depth ∧ m.depth ≤ limits.depth ∧ (m.state.task = .rest → m.depth = 0)) ∧
      (∀ most, limits.steps = some most →
        m.state.session.steps ≤ most ∧ m.state.session.turtle.size ≤ most) ∧
      (∀ n, I.CountingLeads m n →
        m.state.session.skipped.toList <+: n.state.session.skipped.toList) ∧
      (m.state.session.truncated = true →
        (∀ n, I.CountingLeads m n → n.state.session = m.state.session) ∧
        ∀ frame start, I.run frame start m.state.session = (tokens.size, m.state.session)) := by
  intro I new
  refine ⟨?_, ?_⟩
  · intro calls frame start s
    exact ⟨Interpreter.countingLeads_of_leads (I.leads_afterCalls calls (.new #[])),
      Interpreter.countingLeads_of_leads (I.leads_run frame start s).2⟩
  · intro m hm
    -- The counter is that of a state which the machine reaches without counting.
    obtain ⟨x, hx, rfl⟩ := Interpreter.leads_of_countingLeads (x := .atRest (.new #[])) hm
    have hreached : I.Reached x := ⟨#[], hx⟩
    have hbounded : I.Bounded x := (I.bounded_atRest (.new #[])).leads hx
    refine ⟨⟨Int.natCast_nonneg _, Int.ofNat_le.mpr hbounded.depth_le, ?_⟩, ?_, ?_, ?_⟩
    · intro hrest
      exact Int.natCast_eq_zero.mpr (hbounded.rested hrest)
    · intro most hlimit
      obtain ⟨hfew, hwithin⟩ := (keeps_within hlimit).leads hx ⟨Nat.le_refl 0, Nat.zero_le most⟩
      exact ⟨hwithin, Nat.le_trans hfew hwithin⟩
    · intro n hn
      obtain ⟨y, hy, rfl⟩ := Interpreter.leads_of_countingLeads hn
      exact (keeps_skipped x.session.skipped).leads hy List.prefix_rfl
    · intro hcut
      have hexhausted : I.exhausted x.session = true :=
        StoppingPlace.exhausted_of_reached hreached hcut
      refine ⟨?_, fun frame start => run_of_cut hcut hexhausted frame start⟩
      intro n hn
      obtain ⟨y, hy, rfl⟩ := Interpreter.leads_of_countingLeads hn
      exact session_leads_of_cut hcut hexhausted hy

/-- A procedure that calls itself, and a loop of calls that has no steps left for its last ones. -/
def circling : Interpreter (Array Command) :=
  recorder #[⟨"to"⟩, ⟨"p"⟩, ⟨"pu"⟩, ⟨"p"⟩, ⟨"end"⟩, ⟨"repeat"⟩, ⟨"9"⟩, .opening, ⟨"p"⟩, .closing]
    .standard ⟨3, some 12⟩

theorem session_of_calls_circling :
    let s := circling.afterCalls [(.top, 0), (.loop, 99)] (.new #[])
    s.truncated = true ∧ s.steps ≤ 12 ∧ s.turtle.size ≤ 12 ∧
      circling.run .procedure 2 s = (10, s) ∧
      circling.CountingLeads ⟨0, .atRest s⟩ ⟨0, .atRest (circling.run .procedure 2 s).2⟩ := by
  intro s
  obtain ⟨hcalls, hstates⟩ := session_of_calls circling.tokens .standard ⟨3, some 12⟩
  obtain ⟨hbefore, hcall⟩ := hcalls [(.top, 0), (.loop, 99)] .procedure 2
  obtain ⟨-, hlimit, -, hcut⟩ := hstates ⟨0, .atRest s⟩ hbefore
  have htruncated : s.truncated = true := by decide +kernel
  exact ⟨htruncated, (hlimit 12 rfl).1, (hlimit 12 rfl).2, (hcut htruncated).2 .procedure 2, hcall⟩

end Sessions

end TurtleScript
