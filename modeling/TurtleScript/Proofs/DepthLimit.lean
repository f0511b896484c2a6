import TurtleScript.Program
import TurtleScript.Proofs.Interpreter.Agreement

/-!
The limit on depth cannot be seen until it is hit. Two runs that differ only in how many frames may
be opened inside each other stay the same session for as long as the shallower one opens every frame
it comes to. It parts from the deeper one where it refuses a frame, and there it notes the refusal,
which no later step takes out of its report again.
-/

namespace TurtleScript

universe u

namespace DepthLimit

variable {σ : Type u} {C : Clocked σ}

/-- A frame has been refused because it lay too deep. -/
def Refused (s : Session σ) : Prop :=
  ∃ token, Skip.depthLimit token ∈ s.skipped

theorem Refused.skip {s : Session σ} (h : Refused s) (reason : Skip) :
    Refused (s.skip reason) := by
  obtain ⟨token, hmem⟩ := h
  exact ⟨token, Array.mem_push_of_mem reason hmem⟩

/-- A refusal is never forgotten. -/
theorem keeps_refused : C.Keeps Refused where
  tick h _ := h
  give h _ _ := h
  skip reason h := h.skip reason
  cut h _ := h
  define h _ _ _ := Session.define_elim h.skip fun _ => h

/-- The same interpreter with another limit on depth. -/
def atDepth (C : Clocked σ) (depth : Nat) : Clocked σ :=
  { C with limits := { C.limits with depth := depth } }

/-- Two limits on depth make no difference to what is done outside of nested frames. -/
theorem agreement_atDepth (C : Clocked σ) (depth depth' : Nat) :
    Clocked.Agreement (atDepth C depth) (atDepth C depth') (fun s t => s = t)
      (fun s _ => Refused s) where
  tokens := rfl
  table := rfl
  procedures h := congrArg Session.procedures h
  running h hrunning := h ▸ hrunning
  cut h hexhausted := Or.inl ⟨h ▸ hexhausted, congrArg Session.cut h⟩
  tick h _ := congrArg Session.tick h
  give := by
    rintro s t command rfl _ _
    rfl
  skip reason h := congrArg (Session.skip · reason) h
  define := by
    rintro s t name index rfl _ _ _
    rfl
  left room := keeps_refused.stable room
  right _ := ⟨id, id⟩

/-- From a frame in which fewer frames may be opened, nested frames are run like from one in which
more may be opened, or one of them is refused. -/
theorem nested_of_le (C : Clocked σ) (depth depth' : Nat) {room room' : Nat} (h : room ≤ room') :
    Clocked.Nested (atDepth C depth) (atDepth C depth') (fun s t => s = t) (fun s _ => Refused s)
      room room' := by
  induction room generalizing room' with
  | zero =>
      intro token frame start s t _
      exact Or.inr ⟨token.text, Array.mem_push_self⟩
  | succ room ih =>
      obtain ⟨deeper, rfl⟩ : ∃ deeper, room' = deeper + 1 := ⟨room' - 1, by omega⟩
      intro token frame start s t hst
      rcases (agreement_atDepth C depth depth').walk (ih (Nat.le_of_succ_le_succ h)) hst with
        ⟨hstop, hst'⟩ | hrefused
      · exact Or.inl ⟨congrArg some hstop, hst'⟩
      · exact Or.inr hrefused

/-- On every turtle, a run that refuses no frame is the same run under any higher limit. -/
theorem run_eq_of_not_refused (I : Interpreter σ) {depth : Nat} (hle : I.limits.depth ≤ depth)
    (frame : Frame) (start : Nat) (s : Session σ)
    (h : ¬ Refused (I.run frame start s).2) :
    ({ I with limits := { I.limits with depth := depth } } : Interpreter σ).run frame start s =
      I.run frame start s := by
  have hagree : Clocked.Agree (fun s t => s = t) (fun s _ => Refused s)
      ((atDepth I.clocked I.limits.depth).run frame start s)
      ((atDepth I.clocked depth).run frame start s) :=
    (agreement_atDepth I.clocked I.limits.depth depth).walk
      (nested_of_le I.clocked I.limits.depth depth hle) rfl
  have hshallow : (atDepth I.clocked I.limits.depth).run frame start s = I.run frame start s :=
    I.clocked_run frame start s
  have hdeep : (atDepth I.clocked depth).run frame start s =
      ({ I with limits := { I.limits with depth := depth } } : Interpreter σ).run frame start s :=
    Interpreter.clocked_run { I with limits := { I.limits with depth := depth } } frame start s
  rw [hshallow, hdeep] at hagree
  rcases hagree with ⟨hstop, hsession⟩ | hrefused
  · exact (Prod.ext hstop hsession).symm
  · exact absurd hrefused h

/-- A limit on depth that is not hit cannot be seen: if a run reports no frame refused for its
depth, then with any higher limit it gives the same commands and reports the same, whatever the
limit on its steps. -/
theorem record_eq_of_no_depthLimit (p : Program) (table : CommandTable) (steps : Option Nat)
    {depth depth' : Nat} (hle : depth ≤ depth')
    (h : ∀ token, Skip.depthLimit token ∉ (p.record table ⟨depth, steps⟩).2.skipped) :
    p.record table ⟨depth', steps⟩ = p.record table ⟨depth, steps⟩ := by
  let I : Interpreter (Array Command) := ⟨p.tokens, table, ⟨depth, steps⟩, Array.push⟩
  have hnot : ¬ Refused (I.run .top 0 (.new #[])).2 := by
    rintro ⟨token, hmem⟩
    exact h token (Array.mem_toList_iff.mpr hmem)
  have hrun := run_eq_of_not_refused I hle .top 0 (.new #[]) hnot
  have hsession : p.session table ⟨depth', steps⟩ = p.session table ⟨depth, steps⟩ :=
    congrArg Prod.snd hrun
  rw [Program.record_eq_session, hsession, ← Program.record_eq_session]

/-- A loop that calls a procedure with a loop in it: three frames inside each other. -/
def threeDeep : Program :=
  ⟨#[⟨"to"⟩, ⟨"p"⟩, ⟨"repeat"⟩, ⟨"2"⟩, ⟨"["⟩, ⟨"pu"⟩, ⟨"q"⟩, ⟨"]"⟩, ⟨"end"⟩,
     ⟨"repeat"⟩, ⟨"2"⟩, ⟨"["⟩, ⟨"p"⟩, ⟨"]"⟩]⟩

theorem record_eq_of_no_depthLimit_threeDeep :
    (∀ token, Skip.depthLimit token ∉ (threeDeep.record .standard ⟨3, some 20⟩).2.skipped) ∧
      (threeDeep.record .standard ⟨2, some 20⟩).2.skipped ≠
        (threeDeep.record .standard ⟨3, some 20⟩).2.skipped ∧
      threeDeep.record .standard ⟨512, some 20⟩ = threeDeep.record .standard ⟨3, some 20⟩ := by
  have hskipped : (threeDeep.record .standard ⟨3, some 20⟩).2.skipped =
      List.replicate 4 (.unknownCommand "q") := by decide +kernel
  have hnone : ∀ token,
      Skip.depthLimit token ∉ (threeDeep.record .standard ⟨3, some 20⟩).2.skipped := by
    intro token hmem
    rw [hskipped] at hmem
    simp at hmem
  refine ⟨hnone, ?_, record_eq_of_no_depthLimit threeDeep .standard (some 20) (by decide) hnone⟩
  rw [hskipped]
  decide +kernel

end DepthLimit

end TurtleScript
