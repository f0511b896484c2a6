import TurtleScript.Program
import TurtleScript.Proofs.Interpreter.Agreement

/-!
A limit on steps cuts a run and changes nothing before the cut. The commands of the unlimited run
are written down together with the steps in which they are given; the limited run gives those whose
step is within the limit. The two runs go in step until the limit is reached, and from then on the
limited one does nothing while every later command of the other comes in a later step.
-/

namespace TurtleScript

namespace Program

/-- The interpreter of a turtle that writes every command down with the number of its step. -/
def timekeeper (p : Program) (table : CommandTable) (limits : Limits) :
    Clocked (Array (Nat × Command)) where
  tokens := p.tokens
  table := table
  limits := limits
  obey step log command := log.push (step, command)

/-- The session in which a program has been run on that turtle. -/
def timedSession (p : Program) (table : CommandTable) (limits : Limits) :
    Session (Array (Nat × Command)) :=
  ((p.timekeeper table limits).run .top 0 (.new #[])).2

/-- The commands of a run with the numbers of the steps in which they were given. The step of a
command is the one that its own token counts. -/
def timeline (p : Program) (table : CommandTable) (limits : Limits) : Array (Nat × Command) :=
  (p.timedSession table limits).turtle

/-- The number of steps a run has taken in the end. -/
def stepCount (p : Program) (table : CommandTable) (limits : Limits) : Nat :=
  (p.session table limits).steps

end Program

namespace StepLimit

/-- The commands of a timeline. -/
def commands (log : Array (Nat × Command)) : Array Command :=
  log.map Prod.snd

/-- The commands of a timeline that were given within the first `m` steps. -/
def commandsWithin (m : Nat) (log : Array (Nat × Command)) : Array Command :=
  commands (log.filter fun entry => entry.1 ≤ m)

theorem commands_push (log : Array (Nat × Command)) (step : Nat) (command : Command) :
    commands (log.push (step, command)) = (commands log).push command := by
  simp [commands]

theorem commandsWithin_push_of_lt {m step : Nat} (h : m < step) (log : Array (Nat × Command))
    (command : Command) : commandsWithin m (log.push (step, command)) = commandsWithin m log := by
  have hnot : decide (step ≤ m) = false := by simpa using h
  simp [commandsWithin, hnot]

theorem commandsWithin_of_le {m : Nat} {log : Array (Nat × Command)}
    (h : ∀ entry ∈ log, entry.1 ≤ m) : commandsWithin m log = commands log := by
  have hall : log.filter (fun entry => entry.1 ≤ m) = log := by
    apply Array.filter_eq_self.mpr
    simpa using h
  rw [commandsWithin, hall]

theorem onTurtle_new : (Session.new #[]).onTurtle commands = Session.new #[] := by
  simp [Session.onTurtle, Session.new, commands]

/-- Timekeeping does not disturb a run. -/
theorem session_eq_timedSession (p : Program) (table : CommandTable) (limits : Limits) :
    p.session table limits = (p.timedSession table limits).onTurtle commands := by
  let I : Interpreter (Array Command) := ⟨p.tokens, table, limits, Array.push⟩
  have hrun := Clocked.run_onTurtle (p.timekeeper table limits) (fun _ => Array.push) commands
    (fun step log command => commands_push log step command) .top 0 (.new #[])
  have hsession : p.session table limits = (I.clocked.run .top 0 (.new #[])).2 := by
    rw [I.clocked_run]
    rfl
  rw [hsession]
  rw [onTurtle_new] at hrun
  exact congrArg Prod.snd hrun

/-- A limited run while it goes in step with the unlimited one. -/
structure InStep (m : Nat) (s : Session (Array Command)) (t : Session (Array (Nat × Command))) :
    Prop where
  same : s = t.onTurtle commands
  uncut : t.truncated = false
  within : t.steps ≤ m
  timed : ∀ entry ∈ t.turtle, entry.1 ≤ t.steps
  few : t.turtle.size ≤ t.steps

/-- A limited run that has been cut, beside an unlimited one that goes on. -/
structure Cut (m : Nat) (s : Session (Array Command)) (t : Session (Array (Nat × Command))) :
    Prop where
  truncated : s.truncated = true
  used : s.steps = m
  later : m ≤ t.steps
  skipped : s.skipped.toList <+: t.skipped.toList
  procedures : s.procedures.bodies ⊆ t.procedures.bodies
  given : s.turtle = commandsWithin m t.turtle
  initial : s.turtle.toList <+: (commands t.turtle).toList
  few : s.turtle.size ≤ m

theorem InStep.cut {m : Nat} {s : Session (Array Command)} {t : Session (Array (Nat × Command))}
    (h : InStep m s t) (hused : m ≤ s.steps) : Cut m s.cut t := by
  obtain ⟨rfl, huncut, hwithin, htimed, hfew⟩ := h
  change m ≤ t.steps at hused
  have hall : ∀ entry ∈ t.turtle, entry.1 ≤ m := by
    intro entry hentry
    exact Nat.le_trans (htimed entry hentry) hwithin
  exact {
    truncated := rfl
    used := Nat.le_antisymm hwithin hused
    later := hused
    skipped := List.prefix_rfl
    procedures := List.Subset.refl _
    given := (commandsWithin_of_le hall).symm
    initial := List.prefix_rfl
    few := by
      change (commands t.turtle).size ≤ m
      simp only [commands, Array.size_map]
      omega }

section

variable {p : Program} {table : CommandTable} {depth m : Nat}

/-- The interpreter of a limited run. -/
def limited (p : Program) (table : CommandTable) (depth m : Nat) : Interpreter (Array Command) :=
  ⟨p.tokens, table, ⟨depth, some m⟩, Array.push⟩

theorem exhausted_limited_iff {s : Session (Array Command)} :
    (limited p table depth m).clocked.exhausted s = true ↔ m ≤ s.steps := by
  simp [Clocked.exhausted, Interpreter.clocked, limited, Session.exhausted]

theorem lt_of_exhausted_eq_false {s : Session (Array Command)}
    (h : (limited p table depth m).clocked.exhausted s = false) : s.steps < m := by
  apply Nat.lt_of_not_le
  intro hle
  rw [exhausted_limited_iff.mpr hle] at h
  cases h

/-- A cut run stays as it is. -/
theorem stable_cut_left (t : Session (Array (Nat × Command))) (room : Nat) :
    (limited p table depth m).clocked.Stable room (Cut m · t) where
  walk := by
    intro frame index defining s h
    have hexhausted : (limited p table depth m).clocked.exhausted s = true :=
      exhausted_limited_iff.mpr (Nat.le_of_eq h.used.symm)
    by_cases hlt : index < (limited p table depth m).clocked.tokens.size
    · rw [Clocked.walk_of_exhausted hlt hexhausted]
      exact { h with truncated := rfl }
    · rw [Clocked.walk_of_size_le (Nat.le_of_not_lt hlt)]
      exact h
  passes := by
    intro start body count last s h
    have hexhausted : (limited p table depth m).clocked.exhausted s = true :=
      exhausted_limited_iff.mpr (Nat.le_of_eq h.used.symm)
    have hduring : ((limited p table depth m).clocked.during start).exhausted s = true :=
      hexhausted
    cases count with
    | zero => exact h
    | succ count =>
        rw [Interpreter.passes_of_exhausted hduring]
        exact { h with truncated := rfl }

theorem Cut.skip {s : Session (Array Command)} {t : Session (Array (Nat × Command))}
    (h : Cut m s t) (reason : Skip) : Cut m s (t.skip reason) :=
  { h with
    skipped := by
      change _ <+: (Array.push _ reason).toList
      rw [Array.toList_push]
      exact h.skipped.trans (List.prefix_append _ _) }

/-- Whatever the unlimited run still does comes after the limit. -/
theorem keeps_cut_right (s : Session (Array Command)) :
    (p.timekeeper table ⟨depth, none⟩).Keeps (Cut m s ·) where
  tick h _ := { h with later := Nat.le_succ_of_le h.later }
  give := by
    intro t command h _ _
    have hlater : m < t.steps + 1 := Nat.lt_succ_of_le h.later
    exact { h with
      later := Nat.le_of_lt hlater
      given := h.given.trans (commandsWithin_push_of_lt hlater t.turtle command).symm
      initial := by
        change _ <+: (commands (t.turtle.push (t.steps + 1, command))).toList
        rw [commands_push, Array.toList_push]
        exact h.initial.trans (List.prefix_append _ _) }
  skip reason h := h.skip reason
  cut h _ := { h with }
  define := by
    intro t name index h _ _ _
    rcases t.define_cases table name (index + 2) with ⟨reason, hskip⟩ | ⟨_, _, _, hadded⟩
    · exact hskip ▸ h.skip reason
    · change Cut m s (t.define table name (index + 2))
      rw [hadded]
      exact { h with procedures := List.subset_cons_of_subset _ h.procedures }

theorem InStep.skip {s : Session (Array Command)} {t : Session (Array (Nat × Command))}
    (h : InStep m s t) (reason : Skip) : InStep m (s.skip reason) (t.skip reason) := by
  obtain ⟨rfl, huncut, hwithin, htimed, hfew⟩ := h
  exact ⟨rfl, huncut, hwithin, htimed, hfew⟩

/-- A limited run and an unlimited one that keeps the time go in step until the limit. -/
theorem agreement_limited :
    Clocked.Agreement (limited p table depth m).clocked (p.timekeeper table ⟨depth, none⟩)
      (InStep m) (Cut m) where
  tokens := rfl
  table := rfl
  procedures h := congrArg Session.procedures h.same
  running _ _ := rfl
  cut h hexhausted := Or.inr (h.cut (exhausted_limited_iff.mp hexhausted))
  tick := by
    rintro s t ⟨rfl, huncut, hwithin, htimed, hfew⟩ hrunning
    have hroom : t.steps < m := lt_of_exhausted_eq_false hrunning
    exact {
      same := rfl
      uncut := huncut
      within := hroom
      timed := fun entry hentry => Nat.le_succ_of_le (htimed entry hentry)
      few := Nat.le_succ_of_le hfew }
  give := by
    rintro s t command ⟨rfl, huncut, hwithin, htimed, hfew⟩ hrunning _
    have hroom : t.steps < m := lt_of_exhausted_eq_false hrunning
    exact {
      same := by
        change (⟨(commands t.turtle).push command, _, _, _, _⟩ : Session (Array Command)) =
          ⟨commands (t.turtle.push (t.steps + 1, command)), _, _, _, _⟩
        rw [commands_push]
        rfl
      uncut := huncut
      within := hroom
      timed := by
        intro entry hentry
        change entry ∈ t.turtle.push (t.steps + 1, command) at hentry
        change entry.1 ≤ t.steps + 1
        rcases Array.mem_push.mp hentry with hold | rfl
        · exact Nat.le_succ_of_le (htimed entry hold)
        · exact Nat.le_refl _
      few := by
        change (t.turtle.push (t.steps + 1, command)).size ≤ t.steps + 1
        rw [Array.size_push]
        omega }
  skip reason h := h.skip reason
  define := by
    intro s t name index h _ _ _
    change InStep m (s.define table name (index + 2)) (t.define table name (index + 2))
    rw [h.same, Session.onTurtle_define]
    obtain ⟨rfl, huncut, hwithin, htimed, hfew⟩ := h
    rcases t.define_cases table name (index + 2) with ⟨reason, hskip⟩ | ⟨_, _, _, hadded⟩
    · rw [hskip]
      exact ⟨rfl, huncut, hwithin, htimed, hfew⟩
    · rw [hadded]
      exact ⟨rfl, huncut, hwithin, htimed, hfew⟩
  left room := stable_cut_left _ room
  right room := (keeps_cut_right _).stable room

/-- At the end the two runs still go in step, or the limited one was cut. -/
theorem inStep_or_cut (p : Program) (table : CommandTable) (depth m : Nat) :
    InStep m (p.session table ⟨depth, some m⟩) (p.timedSession table ⟨depth, none⟩) ∨
      Cut m (p.session table ⟨depth, some m⟩) (p.timedSession table ⟨depth, none⟩) := by
  have hnew : InStep m (Session.new #[]) (Session.new #[]) := {
    same := onTurtle_new.symm
    uncut := rfl
    within := Nat.zero_le m
    timed := by
      intro entry hentry
      simp [Session.new] at hentry
    few := Nat.le_refl 0 }
  have hsession : p.session table ⟨depth, some m⟩ =
      ((limited p table depth m).clocked.run .top 0 (.new #[])).2 := by
    rw [Interpreter.clocked_run]
    rfl
  have hrun : Clocked.Agree (InStep m) (Cut m)
      ((limited p table depth m).clocked.run .top 0 (.new #[]))
      ((p.timekeeper table ⟨depth, none⟩).run .top 0 (.new #[])) :=
    agreement_limited.run rfl hnew
  rw [hsession]
  rcases hrun with ⟨_, hin⟩ | hcut
  · exact Or.inl hin
  · exact Or.inr hcut

end

theorem names_subset {procedures others : Procedures}
    (h : procedures.bodies ⊆ others.bodies) : procedures.names ⊆ others.names := by
  intro name hname
  apply List.mem_mergeSort.mpr
  exact List.map_subset Prod.fst h (List.mem_mergeSort.mp hname)

/-- A limit on steps cuts a run exactly. Of the commands of the unlimited run, which the timeline
lists with their steps, the limited run gives those within the limit; what it reports is the
beginning of what the unlimited run reports, and all of it if it was not cut. It is cut if the
unlimited run takes more steps than the limit, and not if it takes fewer. -/
theorem record_limited (p : Program) (table : CommandTable) (depth m : Nat) :
    let unlimited := p.record table ⟨depth, none⟩
    let limited := p.record table ⟨depth, some m⟩
    let timeline := p.timeline table ⟨depth, none⟩
    let steps := p.stepCount table ⟨depth, none⟩
    unlimited.1 = commands timeline ∧
      limited.1 = commandsWithin m timeline ∧
      limited.1.toList <+: unlimited.1.toList ∧
      limited.1.size ≤ m ∧
      limited.2.skipped <+: unlimited.2.skipped ∧
      limited.2.procedures ⊆ unlimited.2.procedures ∧
      (limited.2.truncated = false → limited = unlimited) ∧
      (m < steps → limited.2.truncated = true) ∧
      (steps < m → limited.2.truncated = false) := by
  intro unlimited limited timeline steps
  have hunlimited := session_eq_timedSession p table ⟨depth, none⟩
  have hsteps : steps = (p.timedSession table ⟨depth, none⟩).steps :=
    congrArg Session.steps hunlimited
  have hcommands : unlimited.1 = commands timeline := congrArg Session.turtle hunlimited
  have hskipped : unlimited.2.skipped =
      (p.timedSession table ⟨depth, none⟩).skipped.toList :=
    congrArg (fun s => s.skipped.toList) hunlimited
  have hnames : unlimited.2.procedures =
      (p.timedSession table ⟨depth, none⟩).procedures.names :=
    congrArg (fun s => s.procedures.names) hunlimited
  rcases inStep_or_cut p table depth m with hin | hcut
  · have hsame : limited = unlimited := by
      change ((p.session table _).turtle, (p.session table _).report) =
        ((p.session table _).turtle, (p.session table _).report)
      rw [hunlimited, hin.same]
    have hwithin : ∀ entry ∈ timeline, entry.1 ≤ m := by
      intro entry hentry
      exact Nat.le_trans (hin.timed entry hentry) hin.within
    have huncut : limited.2.truncated = false := by
      change (p.session table ⟨depth, some m⟩).truncated = false
      rw [hin.same]
      exact hin.uncut
    refine ⟨hcommands, ?_, ?_, ?_, ?_, ?_, fun _ => hsame, ?_, fun _ => huncut⟩
    · rw [hsame, hcommands, commandsWithin_of_le hwithin]
    · simp [hsame]
    · rw [hsame, hcommands, commands, Array.size_map]
      exact Nat.le_trans hin.few hin.within
    · simp [hsame]
    · rw [hsame]
      exact List.Subset.refl _
    · intro hlt
      have hle := hin.within
      omega
  · refine ⟨hcommands, hcut.given, ?_, hcut.few, ?_, ?_, ?_, fun _ => hcut.truncated, ?_⟩
    · rw [hcommands]
      exact hcut.initial
    · rw [hskipped]
      exact hcut.skipped
    · rw [hnames]
      exact names_subset hcut.procedures
    · intro huncut
      have htruncated : limited.2.truncated = true := hcut.truncated
      rw [huncut] at htruncated
      cases htruncated
    · intro hlt
      have hle := hcut.later
      omega

/-- Three passes over one command and one command after them, which is eight steps. -/
def eightSteps : Program :=
  ⟨#[⟨"repeat"⟩, ⟨"3"⟩, ⟨"["⟩, ⟨"fd"⟩, ⟨"1"⟩, ⟨"]"⟩, ⟨"rt"⟩, ⟨"1"⟩]⟩

theorem record_limited_eightSteps :
    eightSteps.stepCount .standard ⟨1, none⟩ = 8 ∧
      (eightSteps.record .standard ⟨1, some 4⟩).2.truncated = true ∧
      eightSteps.record .standard ⟨1, some 9⟩ = eightSteps.record .standard ⟨1, none⟩ := by
  have hsteps : eightSteps.stepCount .standard ⟨1, none⟩ = 8 := by decide +kernel
  obtain ⟨_, _, _, _, _, _, _, hmore, _⟩ := record_limited eightSteps .standard 1 4
  obtain ⟨_, _, _, _, _, _, hwhole, _, hfewer⟩ := record_limited eightSteps .standard 1 9
  refine ⟨hsteps, hmore ?_, hwhole (hfewer ?_)⟩
  · rw [hsteps]
    decide
  · rw [hsteps]
    decide

end StepLimit

end TurtleScript
