import TurtleScript.Proofs.Brackets
import TurtleScript.Proofs.Interpreter.Orders

/-!
Two `end`s in a row bring a run back in step. Whatever stands before them, as long as its brackets
are closed there, the orders after them are carried out in full and last.

A frame cannot jump over both `end`s: it stops at one of them, or it steps onto the second one and
goes on with the first order. The frames inside which it was opened may go on from where it stopped,
and so pass the `end`s in their turn. So every frame either stops before the orders or ends with
all of them, and the script itself does not stop.
-/

namespace TurtleScript

namespace Resynchronisation

/-- Every opening bracket of some tokens is closed within them. -/
def BracketsClose (tokens : List Token) : Prop :=
  ∀ i : Fin tokens.length, tokens[i] = .opening →
    Bracket.close tokens.toArray (i + 1) < tokens.length

instance (tokens : List Token) : Decidable (BracketsClose tokens) :=
  Nat.decidableForallFin _

/-- A script that is brought back in step: anything, two `end`s, and orders. -/
structure Setting (I : Interpreter (Array Command)) (before orders : List Token)
    (commands : List Command) : Prop where
  tokens : I.tokens =
    (before ++ Keyword.finish.token :: Keyword.finish.token :: orders).toArray
  closes : BracketsClose before
  areOrders : AreOrders I.table orders commands
  unlimited : I.limits.steps = none
  recording : I.obey = Array.push

/-- Procedures that start before the orders and respect the table. -/
def Starts (table : CommandTable) (last : Nat) (procedures : Procedures) : Prop :=
  ∀ name body, procedures.find? name = some body → table.find? name = none ∧ body ≤ last

/-- Where a frame stops and what it leaves behind: it stopped before the orders, or it ended with
all of them. -/
structure Settled (I : Interpreter (Array Command)) (before : List Token)
    (commands : List Command) (stop : Nat) (s : Session (Array Command)) : Prop where
  starts : Starts I.table (before.length + 1) s.procedures
  settled : stop ≤ before.length + 1 ∨
    (stop = I.tokens.size ∧ commands <:+ s.turtle.toList)

/-- Where the cursor of a frame can be: before the orders, at the first of them and in no
definition, or past all of them when they have been carried out. -/
structure Placed (I : Interpreter (Array Command)) (before : List Token)
    (commands : List Command) (index : Nat) (defining : Bool) (s : Session (Array Command)) :
    Prop where
  starts : Starts I.table (before.length + 1) s.procedures
  placed : index ≤ before.length + 1 ∨ (index = before.length + 2 ∧ defining = false) ∨
    (I.tokens.size ≤ index ∧ commands <:+ s.turtle.toList)

variable {I : Interpreter (Array Command)} {before orders : List Token} {commands : List Command}
  {inner : Option (Interpreter.Runner (Array Command))} {frame : Frame} {index : Nat}
  {defining : Bool} {s : Session (Array Command)}

namespace Setting

theorem size (h : Setting I before orders commands) :
    I.tokens.size = before.length + 2 + orders.length := by
  rw [h.tokens]
  simp
  omega

theorem exhausted (h : Setting I before orders commands) : I.exhausted s = false :=
  Interpreter.exhausted_eq_false h.unlimited

theorem ahead_orders (h : Setting I before orders commands) :
    I.ahead (before.length + 2) = orders := by
  have hahead : I.ahead 0 =
      (before ++ [Keyword.finish.token, Keyword.finish.token]) ++ orders := by
    simp [Interpreter.ahead, h.tokens]
  simpa using Interpreter.ahead_of_append hahead

theorem token_before (h : Setting I before orders commands) (hindex : index < before.length) :
    I.tokens[index]? = before[index]? := by
  simp [h.tokens, List.getElem?_append_left hindex]

/-- The `end`s keep their place whatever stands before them. -/
theorem token_end (h : Setting I before orders commands) (hge : before.length ≤ index)
    (hle : index ≤ before.length + 1) : I.tokens[index]? = some Keyword.finish.token := by
  have hcases : index = before.length ∨ index = before.length + 1 := by omega
  rcases hcases with rfl | rfl <;> simp [h.tokens]

/-- A loop before the orders has its body closed before the `end`s. -/
theorem body_closes (h : Setting I before orders commands) (hindex : index < before.length)
    (hopening : I.tokens[index + 2]? = some .opening) :
    index + 2 < before.length ∧ Bracket.close I.tokens (index + 3) < before.length := by
  have hinside : index + 2 < before.length := by
    apply Nat.lt_of_not_le
    intro hge
    rw [h.token_end hge (by omega)] at hopening
    revert hopening
    decide
  refine ⟨hinside, ?_⟩
  rw [h.token_before hinside, List.getElem?_eq_getElem hinside] at hopening
  have hcloses := h.closes ⟨index + 2, hinside⟩ (Option.some.inj hopening)
  have hsame : Bracket.close I.tokens (index + 3) =
      Bracket.close before.toArray (index + 3) := by
    rw [h.tokens, ← List.append_toArray]
    exact Bracket.closeFrom_append hcloses
  rw [hsame]
  exact hcloses

end Setting

theorem Starts.respects {table : CommandTable} {last : Nat} {procedures : Procedures}
    (h : Starts table last procedures) : procedures.Respects table := by
  intro name body hfind
  exact (h name body hfind).1

theorem Starts.define {table : CommandTable} {last : Nat} (h : Starts table last s.procedures)
    (name : Token) {body : Nat} (hbody : body ≤ last) :
    Starts table last (s.define table name body).procedures := by
  rcases s.define_cases table name body with ⟨reason, hskip⟩ | ⟨htable, -, -, hnew⟩
  · rw [hskip]
    exact h
  · rw [hnew]
    intro other start hfind
    by_cases hname : name.text = other
    · have hstart : start = body := by
        simpa [Procedures.find?, hname] using hfind.symm
      rw [hstart, ← hname]
      exact ⟨htable, hbody⟩
    · have hne : (other == name.text) = false := by simp [Ne.symm hname]
      apply h other start
      simpa [Procedures.find?, List.lookup_cons, hne] using hfind

/-- Outside of a definition the cursor may also stand at the first order. -/
theorem placed_of_le (hs : Starts I.table (before.length + 1) s.procedures)
    (hindex : index ≤ before.length + 2) : Placed I before commands index false s := by
  refine ⟨hs, ?_⟩
  by_cases hle : index ≤ before.length + 1
  · exact Or.inl hle
  · exact Or.inr (Or.inl ⟨by omega, rfl⟩)

/-- What is known of the frames that can be opened from a frame. -/
def Tame (I : Interpreter (Array Command)) (before : List Token) (commands : List Command)
    (inner : Option (Interpreter.Runner (Array Command))) : Prop :=
  ∀ run, inner = some run → ∀ frame start s, start ≤ before.length + 1 →
    Starts I.table (before.length + 1) s.procedures →
    Settled I before commands (run frame start s).1 (run frame start s).2

/-- Input of at most one token, which is all that tokens other than a loop take. -/
def Short (I : Interpreter (Array Command)) (before : List Token)
    (result : Nat × Session (Array Command)) : Prop :=
  result.1 ≤ 1 ∧ Starts I.table (before.length + 1) result.2.procedures

theorem short_primitive (name : String)
    (hs : Starts I.table (before.length + 1) s.procedures) :
    Short I before (I.primitive index name s) := by
  unfold Interpreter.primitive
  split
  · exact ⟨Nat.zero_le 1, hs⟩
  · exact ⟨Nat.zero_le 1, hs⟩
  · split
    · exact ⟨Nat.zero_le 1, hs⟩
    · split
      · exact ⟨Nat.zero_le 1, hs⟩
      · exact ⟨Nat.le_refl 1, hs⟩

theorem short_paint (hs : Starts I.table (before.length + 1) s.procedures) :
    Short I before (I.paint index s) := by
  unfold Interpreter.paint
  split
  · exact ⟨Nat.le_refl 1, hs⟩
  · exact ⟨Nat.zero_le 1, hs⟩

theorem short_definition (hindex : index < before.length)
    (hs : Starts I.table (before.length + 1) s.procedures) :
    Short I before (I.definition index s) := by
  unfold Interpreter.definition
  split
  · split
    · exact ⟨Nat.le_refl 1, hs.define _ (by omega)⟩
    · exact ⟨Nat.zero_le 1, hs⟩
  · exact ⟨Nat.zero_le 1, hs⟩

theorem short_invoke (hinner : Tame I before commands inner) (token : Token)
    (hs : Starts I.table (before.length + 1) s.procedures) :
    Short I before (I.invoke inner index token s) := by
  unfold Interpreter.invoke
  cases hfind : s.procedures.find? token.text with
  | none => exact short_primitive token.text hs
  | some body =>
      refine ⟨Nat.zero_le 1, ?_⟩
      cases inner with
      | none => exact hs
      | some run => exact (hinner run rfl .procedure body s (hs _ _ hfind).2 hs).starts

/-- Passes over a loop body stop where one pass does, or at the bracket that closes the body. -/
theorem settled_passes (h : Setting I before orders commands)
    (hinner : Tame I before commands inner) {body : Nat} (hbody : body ≤ before.length + 1)
    (hclose : Bracket.close I.tokens body ≤ before.length + 1) (count : Nat) {last : Nat}
    (hlast : Settled I before commands last s) :
    Settled I before commands (I.passes inner body count last s).1
      (I.passes inner body count last s).2 := by
  induction count generalizing last s with
  | zero => exact hlast
  | succ count ih =>
      rw [Interpreter.passes_of_running h.exhausted]
      cases inner with
      | none => exact ⟨hlast.starts, Or.inl hclose⟩
      | some run => exact ih (hinner run rfl .loop body s.tick hbody hlast.starts)

/-- After a loop before the orders the cursor has not been lost. -/
theorem placed_repetition (h : Setting I before orders commands)
    (hinner : Tame I before commands inner) (hindex : index < before.length)
    (hs : Starts I.table (before.length + 1) s.procedures) :
    Placed I before commands (index + 1 + (I.repetition inner index s).1) false
      (I.repetition inner index s).2 := by
  cases hword : I.tokens[index + 1]? with
  | none =>
      rw [Interpreter.repetition_of_none hword]
      exact ⟨hs, Or.inl (by simp only; omega)⟩
  | some word =>
      have hcounted : Starts I.table (before.length + 1)
          (Interpreter.counted word s).procedures := by
        unfold Interpreter.counted
        split <;> exact hs
      by_cases hopening : I.tokens[index + 2]? = some .opening
      · obtain ⟨hinside, hclose⟩ := h.body_closes hindex hopening
        rw [Interpreter.repetition_of_body hword hopening]
        have hsettled := settled_passes h hinner (show index + 3 ≤ before.length + 1 by omega)
          (by omega) ((Integer.leading? word.text).getD 0).toNat
          (⟨hcounted, Or.inl (by omega)⟩ : Settled I before commands
            (Bracket.close I.tokens (index + 3)) (Interpreter.counted word s))
        obtain ⟨hstarts, hstop | ⟨hstop, horders⟩⟩ := hsettled
        · exact placed_of_le hstarts (by simp only; omega)
        · exact ⟨hstarts, Or.inr (Or.inr ⟨by simp only; omega, horders⟩)⟩
      · rw [Interpreter.repetition_of_no_body hword hopening]
        exact ⟨hcounted, Or.inl (by simp only; omega)⟩

/-- What a turn leaves behind: a frame that has stopped, or a cursor that has not been lost. -/
def After (I : Interpreter (Array Command)) (before : List Token) (commands : List Command)
    (index : Nat) : Interpreter.Turn (Array Command) → Prop
  | .halt s => Settled I before commands index s
  | .advance consumed defining s =>
      Placed I before commands (index + 1 + consumed) defining s

theorem Short.placed {result : Nat × Session (Array Command)} (h : Short I before result)
    (hindex : index < before.length) :
    Placed I before commands (index + 1 + result.1) defining result.2 := by
  have hconsumed := h.1
  exact ⟨h.2, Or.inl (by omega)⟩

/-- An `end` stops a nested frame, and the script goes on after it. -/
theorem after_end (hindex : index ≤ before.length + 1)
    (hs : Starts I.table (before.length + 1) s.procedures) :
    After I before commands index
      (I.turn inner frame index Keyword.finish.token defining s) := by
  unfold Interpreter.turn Interpreter.active
  simp only [Keyword.role_token, bne_self_eq_false, Bool.and_false, Bool.false_eq_true, if_false]
  split
  · exact ⟨hs, Or.inl hindex⟩
  · exact placed_of_le hs (by omega)

/-- No turn before the orders loses the cursor. -/
theorem after_turn (h : Setting I before orders commands)
    (hinner : Tame I before commands inner) (hindex : index < before.length) (token : Token)
    (hs : Starts I.table (before.length + 1) s.procedures) :
    After I before commands index (I.turn inner frame index token defining s) := by
  have hhere : Settled I before commands index s := ⟨hs, Or.inl (by omega)⟩
  have hnext : ∀ defining, Placed I before commands (index + 1 + 0) defining s := by
    intro defining
    exact ⟨hs, Or.inl (by omega)⟩
  have hticked : Starts I.table (before.length + 1) s.tick.procedures := hs
  unfold Interpreter.turn
  split
  · exact hnext true
  · unfold Interpreter.active
    split
    · split
      · exact hhere
      · exact hnext false
    · exact (short_definition hindex hs).placed hindex
    · exact placed_of_le hticked (by omega)
    · exact (short_paint hticked).placed hindex
    · exact placed_repetition h hinner hindex hticked
    · split
      · exact hhere
      · exact hnext false
    · exact hnext false
    · exact (short_invoke hinner token hticked).placed hindex

/-- From wherever the cursor can be, a frame stops before the orders or ends with all of them. -/
theorem settled_walk (h : Setting I before orders commands)
    (hinner : Tame I before commands inner) {index : Nat} {defining : Bool}
    {s : Session (Array Command)} (hplaced : Placed I before commands index defining s) :
    Settled I before commands (I.walk inner frame index defining s).1
      (I.walk inner frame index defining s).2 := by
  have hsize := h.size
  obtain ⟨hs, hindex | ⟨rfl, rfl⟩ | ⟨hindex, horders⟩⟩ := hplaced
  · -- At an `end` or before it the frame takes a turn.
    obtain ⟨token, hturn, ts, hahead⟩ : ∃ token,
        After I before commands index (I.turn inner frame index token defining s) ∧
          ∃ ts, I.ahead index = token :: ts := by
      by_cases hbefore : index < before.length
      · have hlt : index < I.tokens.size := by omega
        exact ⟨I.tokens[index], after_turn h hinner hbefore _ hs,
          Interpreter.ahead_cons_iff.mpr (Array.getElem?_eq_getElem hlt)⟩
      · exact ⟨Keyword.finish.token, after_end hindex hs,
          Interpreter.ahead_cons_iff.mpr (h.token_end (by omega) hindex)⟩
    rw [Interpreter.walk_of_ahead_cons hahead h.exhausted]
    cases hresult : I.turn inner frame index token defining s with
    | halt t =>
        rw [hresult] at hturn
        exact hturn
    | advance consumed defining' t =>
        rw [hresult] at hturn
        exact settled_walk h hinner hturn
  · -- At the first order the frame carries out all of them, whatever kind of frame it is.
    have hahead : I.ahead (before.length + 2) = orders ++ [] := by
      rw [h.ahead_orders, List.append_nil]
    rw [Interpreter.walk_orders h.areOrders h.unlimited hs.respects hahead,
      Interpreter.walk_of_size_le (by omega)]
    refine ⟨?_, Or.inr ⟨rfl, ?_⟩⟩
    · rw [Interpreter.procedures_giveAll]
      exact hs
    · simp [Interpreter.turtle_giveAll, h.recording]
  · rw [Interpreter.walk_of_size_le hindex]
    exact ⟨hs, Or.inr ⟨rfl, horders⟩⟩
termination_by I.tokens.size + 1 - index
decreasing_by omega

theorem settled_runWithin (h : Setting I before orders commands) (room : Nat) {start : Nat}
    (hstart : start ≤ before.length + 1)
    (hs : Starts I.table (before.length + 1) s.procedures) :
    Settled I before commands (I.runWithin room frame start s).1
      (I.runWithin room frame start s).2 := by
  induction room generalizing frame start s with
  | zero =>
      have hnone : Tame I before commands none := by
        intro run hrun
        cases hrun
      exact settled_walk h hnone ⟨hs, Or.inl hstart⟩
  | succ room ih =>
      have hbelow : Tame I before commands (some (I.runWithin room)) := by
        intro run hrun frame start s hstart hs
        cases hrun
        exact ih hstart hs
      exact settled_walk h hbelow ⟨hs, Or.inl hstart⟩

/-- Two `end`s bring any script back in step whose brackets are closed before them: the last
commands of the run are those of the orders that follow, in their order. -/
theorem record_ends_with_orders (table : CommandTable) (depth : Nat) {before orders : List Token}
    {commands : List Command} (hcloses : BracketsClose before)
    (horders : AreOrders table orders commands) :
    commands <:+ ((Program.mk (before ++ [Keyword.finish.token, Keyword.finish.token] ++
      orders).toArray).record table ⟨depth, none⟩).1.toList := by
  let I : Interpreter (Array Command) :=
    ⟨(before ++ [Keyword.finish.token, Keyword.finish.token] ++ orders).toArray, table,
      ⟨depth, none⟩, Array.push⟩
  have hsetting : Setting I before orders commands :=
    ⟨by simp [I], hcloses, horders, rfl, rfl⟩
  have hnew : Starts table (before.length + 1) (Session.new (#[] : Array Command)).procedures := by
    intro name body hfind
    cases hfind
  have hsettled : Settled I before commands (I.runWithin depth .top 0 (.new #[])).1
      (I.runWithin depth .top 0 (.new #[])).2 :=
    settled_runWithin hsetting depth (Nat.zero_le _) hnew
  have hstop : (I.runWithin depth .top 0 (.new #[])).1 = I.tokens.size := by
    rw [Interpreter.runWithin_eq, Interpreter.walk_top]
  obtain ⟨-, hle | ⟨-, hsuffix⟩⟩ := hsettled
  · have hsize := hsetting.size
    omega
  · exact hsuffix

/-- The closing brackets are taken for colours and the first `end` for a name, so the inner loop is
left at the second `end` and the outer one carries out the orders in both of its passes. -/
def strayed : List Token :=
  [⟨"repeat"⟩, ⟨"2"⟩, .opening, ⟨"repeat"⟩, ⟨"2"⟩, .opening, ⟨"bckgr"⟩, .closing, ⟨"bckgr"⟩,
   .closing, ⟨"to"⟩]

def homeward : List Token :=
  [⟨"fd"⟩, ⟨"10"⟩, ⟨"home"⟩, ⟨"save"⟩, ⟨"bckgr"⟩, .closing]

theorem record_ends_with_orders_strayed :
    BracketsClose strayed ∧
      AreOrders .standard homeward [.forward 10, .home, .save, .background "]"] ∧
      [.forward 10, .home, .save, .background "]"] <:+
        ((Program.mk (strayed ++ [Keyword.finish.token, Keyword.finish.token] ++
          homeward).toArray).record .standard ⟨3, none⟩).1.toList := by
  have hcloses : BracketsClose strayed := by decide +kernel
  have hten : Number.finite? "10" = some 10 := by decide +kernel
  have horders : AreOrders .standard homeward [.forward 10, .home, .save, .background "]"] :=
    .cons (.numeric (by decide) rfl hten) (.cons (.plain (by decide) rfl)
      (.cons .save (.cons (.background .closing) .nil)))
  exact ⟨hcloses, horders, record_ends_with_orders .standard 3 hcloses horders⟩

end Resynchronisation

end TurtleScript
