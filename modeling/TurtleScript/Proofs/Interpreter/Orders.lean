import TurtleScript.Proofs.Interpreter.Walk

/-!
Orders: complete primitive commands as they stand in a script. An order is run where it stands in
one step, whatever kind of frame the cursor is in, and gives the turtle one command. All it needs
of the session is that no procedure has taken the name of a primitive.
-/

namespace TurtleScript

universe u

/-- The tokens of an order and the command that it gives. -/
inductive IsOrder (table : CommandTable) : List Token → Command → Prop
  | plain {name : Token} {command : Command} (hname : name.isReserved = false)
      (haction : table.find? name.text = some (.plain command)) : IsOrder table [name] command
  | numeric {name argument : Token} {make : Float → Command} {x : Float}
      (hname : name.isReserved = false)
      (haction : table.find? name.text = some (.numeric make))
      (hx : Number.finite? argument.text = some x) : IsOrder table [name, argument] (make x)
  | save : IsOrder table [Keyword.save.token] .save
  | background (colour : Token) :
      IsOrder table [Keyword.background.token, colour] (.background colour.text)

/-- The tokens of orders that follow each other, and the commands that they give. -/
inductive AreOrders (table : CommandTable) : List Token → List Command → Prop
  | nil : AreOrders table [] []
  | cons {tokens rest : List Token} {command : Command} {commands : List Command}
      (hfirst : IsOrder table tokens command) (hrest : AreOrders table rest commands) :
      AreOrders table (tokens ++ rest) (command :: commands)

/-- No procedure has the name of a primitive. -/
def Procedures.Respects (procedures : Procedures) (table : CommandTable) : Prop :=
  ∀ name body, procedures.find? name = some body → table.find? name = none

theorem Procedures.Respects.find?_eq_none {procedures : Procedures} {table : CommandTable}
    (h : procedures.Respects table) {name : String} {action : Action}
    (haction : table.find? name = some action) : procedures.find? name = none := by
  cases hfind : procedures.find? name with
  | none => rfl
  | some body =>
      rw [h name body hfind] at haction
      cases haction

theorem Procedures.respects_empty (table : CommandTable) : Procedures.empty.Respects table := by
  intro name body h
  cases h

namespace Interpreter

variable {σ : Type u} {I : Interpreter σ} {inner : Option (Runner σ)} {frame : Frame}
  {index : Nat} {s : Session σ}

theorem exhausted_eq_false (hlimit : I.limits.steps = none) : I.exhausted s = false := by
  simp [exhausted, Session.exhausted, hlimit]

/-- A name takes one step and then is invoked. -/
theorem walk_of_name {name : Token} {rest : List Token} (hrunning : I.exhausted s = false)
    (hname : name.isReserved = false) (h : I.ahead index = name :: rest) {consumed : Nat}
    {t : Session σ} (hinvoke : I.invoke inner index name s.tick = (consumed, t)) :
    I.walk inner frame index false s =
      I.walk inner frame (index + 1 + consumed) false t := by
  have hrole : name.role = .name := Token.role_eq_name_iff.mpr hname
  rw [walk_of_ahead_cons h hrunning]
  simp [turn, active, hrole, hinvoke]

/-- A primitive of the table is never taken for a procedure. -/
theorem invoke_of_primitive {name : Token} {action : Action}
    (hrespects : s.procedures.Respects I.table)
    (haction : I.table.find? name.text = some action) :
    I.invoke inner index name s = I.primitive index name.text s := by
  simp [invoke, hrespects.find?_eq_none haction]

/-- An order moves the cursor past its tokens and gives its command in one step. -/
theorem walk_order {tokens rest : List Token} {command : Command}
    (horder : IsOrder I.table tokens command) (hrunning : I.exhausted s = false)
    (hrespects : s.procedures.Respects I.table) (h : I.ahead index = tokens ++ rest) :
    I.walk inner frame index false s =
      I.walk inner frame (index + tokens.length) false (I.tell s.tick command) := by
  have hticked : s.tick.procedures.Respects I.table := hrespects
  cases horder with
  | @plain name _ hname haction =>
      have hinvoke : I.invoke inner index name s.tick = (0, I.tell s.tick command) := by
        rw [invoke_of_primitive hticked haction]
        simp [primitive, haction]
      rw [walk_of_name hrunning hname h hinvoke]
      rfl
  | @numeric name argument make x hname haction hx =>
      have hargument : I.tokens[index + 1]? = some argument := by
        simp [getElem?_add, h]
      have hinvoke : I.invoke inner index name s.tick = (1, I.tell s.tick (make x)) := by
        rw [invoke_of_primitive hticked haction]
        simp [primitive, haction, hargument, hx]
      rw [walk_of_name hrunning hname h hinvoke]
      rfl
  | save =>
      rw [walk_of_ahead_cons h hrunning]
      simp [turn, active]
  | background colour =>
      have hcolour : I.tokens[index + 1]? = some colour := by
        simp [getElem?_add, h]
      rw [walk_of_ahead_cons h hrunning]
      simp [turn, active, paint, hcolour, Nat.add_assoc]

/-- A session after the turtle has been given commands, each in a step of its own. -/
def giveAll (I : Interpreter σ) (s : Session σ) (commands : List Command) : Session σ :=
  commands.foldl (fun s command => I.tell s.tick command) s

theorem procedures_giveAll (commands : List Command) :
    (I.giveAll s commands).procedures = s.procedures := by
  induction commands generalizing s with
  | nil => rfl
  | cons command commands ih => exact ih

theorem report_giveAll (commands : List Command) : (I.giveAll s commands).report = s.report := by
  induction commands generalizing s with
  | nil => rfl
  | cons command commands ih => exact ih

theorem turtle_giveAll (commands : List Command) :
    (I.giveAll s commands).turtle = commands.foldl I.obey s.turtle := by
  induction commands generalizing s with
  | nil => rfl
  | cons command commands ih => exact ih

/-- Orders that follow each other are run one after the other. -/
theorem walk_orders {tokens rest : List Token} {commands : List Command}
    (horders : AreOrders I.table tokens commands) (hlimit : I.limits.steps = none)
    (hrespects : s.procedures.Respects I.table) (h : I.ahead index = tokens ++ rest) :
    I.walk inner frame index false s =
      I.walk inner frame (index + tokens.length) false (I.giveAll s commands) := by
  induction horders generalizing index s with
  | nil => rfl
  | @cons tokens others command commands hfirst _ ih =>
      rw [List.append_assoc] at h
      have hnext : (I.tell s.tick command).procedures.Respects I.table := hrespects
      rw [walk_order hfirst (exhausted_eq_false hlimit) hrespects h,
        ih hnext (ahead_of_append h), List.length_append, Nat.add_assoc]
      rfl

end Interpreter

end TurtleScript
