import TurtleGraphics.Run.Command

/-!
# TurtleGraphics.Proofs.FailedCommands

What is left of a command that fails. A command beyond the budget is refused and leaves no trace. One
that was counted looks at its arguments before it acts, with two exceptions: `show` makes the turtle
visible before it looks at the size, and `limits` sets each limit before it looks at the next argument.
So `Command.leftover` says what a counted command has done by the time it fails, and `run_fault` that
nothing else is changed; together they say when a failure goes unnoticed but for the count
(`Command.Spares`).
-/

namespace TurtleGraphics

/-- The states differ in the number of commands at most. -/
def Machine.SameButCount (m m' : Machine) : Prop :=
  m' = { m with commands := m'.commands }

theorem Outcome.given_eq_fault {α : Type} {m m' : Machine} {r : Except Fault α}
    {next : α → Outcome} {f : Fault} (h : given m r next = .fault f m') :
    m' = m ∨ ∃ a, next a = .fault f m' := by
  cases r with
  | error f' =>
    cases h
    exact .inl rfl
  | ok a => exact .inr ⟨a, h⟩

/-- The limits that are set by the numbers in front of the first text. -/
def Limits.setUntilText (l : Limits) : List Value → Limits
  | .num a :: .text _ :: _ => l.withCommands a.toUInt64.toNat
  | .num a :: .num b :: .text _ :: _ =>
    (l.withCommands a.toUInt64.toNat).withRecursions b.toUInt64.toNat
  | _ => l

namespace Command

/-- What a command that was counted has done by the time it fails at one of its arguments. -/
def leftover (command : Command) (values : List Value) (m : Machine) : Machine :=
  match command with
  | reveal => m.mapScene fun s => s.mapTurtle fun t => { t with visible := true }
  | limits => m.mapLimits fun l => l.setUntilText values
  | _ => m

/-- What a failed command has done makes no difference: the turtle was visible before, or the limits were
those that are set. -/
def Spares (command : Command) (values : List Value) (m : Machine) : Prop :=
  match command with
  | reveal => m.scene.turtle.visible = true
  | limits => m.limits.setUntilText values = m.limits
  | _ => True

theorem setLimits_fault {c : Invocation} {m m' : Machine} {f : Fault}
    (h : setLimits c m = .fault f m') : m' = m.mapLimits fun l => l.setUntilText c.values := by
  obtain ⟨name, values, line⟩ := c
  -- how far the command comes depends on which of the first three arguments are texts
  rcases values with _ | ⟨a | _, _ | ⟨b | _, _ | ⟨d | _, rest⟩⟩⟩ <;>
    simp only [setLimits, Outcome.given, Invocation.count?, Invocation.number?, List.getElem?_nil,
      List.getElem?_cons_zero, List.getElem?_cons_succ, Option.map_some, Option.map_none] at h <;>
    cases h <;> rfl

theorem act_fault {command : Command} {c : Invocation} {m m' : Machine} {f : Fault}
    (h : command.act c m = .fault f m') : m' = command.leftover c.values m := by
  cases command with
  | home | penUp | penDown | hide | fill | erase => cases h
  | limits => exact setLimits_fault h
  | _ =>
    rcases Outcome.given_eq_fault h with rfl | ⟨a, ha⟩
    · rfl
    · cases ha

theorem sameButCount_leftover (command : Command) (values : List Value) (m : Machine) :
    m.SameButCount (command.leftover values { m with commands := m.commands + 1 }) ↔
      command.Spares values m := by
  cases command with
  | reveal =>
    constructor
    · intro h
      exact (congrArg (fun m => m.scene.turtle.visible) h).symm
    · intro (h : m.scene.turtle.visible = true)
      have hshown : { m.scene.turtle with visible := true } = m.scene.turtle := by rw [← h]
      simp only [Machine.SameButCount, leftover, Machine.mapScene, Scene.mapTurtle, hshown]
  | limits =>
    constructor
    · intro h
      exact congrArg Machine.limits h
    · intro (h : m.limits.setUntilText values = m.limits)
      simp only [Machine.SameButCount, leftover, Machine.mapLimits, h]
  | _ => exact ⟨fun _ => trivial, fun _ => rfl⟩

end Command

open Command

/-- A command that fails was refused and leaves the state as it was, or was counted and leaves what it
had done before the wrong argument. So the state but for the count is as before exactly if the command
was refused or spares it. -/
theorem run_fault {command : Command} {c : Invocation} {m m' : Machine} {f : Fault}
    (h : command.run c m = .fault f m') :
    (m.limits.maxCommands ≤ m.commands ∧ m' = m ∨
      m.commands < m.limits.maxCommands ∧
        m' = command.leftover c.values { m with commands := m.commands + 1 }) ∧
    (m.SameButCount m' ↔ m.limits.maxCommands ≤ m.commands ∨ command.Spares c.values m) := by
  unfold Command.run at h
  split at h
  · rename_i hlimit
    cases h
    exact ⟨.inl ⟨hlimit, rfl⟩, fun _ => .inl hlimit, fun _ => rfl⟩
  · rename_i hlimit
    rw [act_fault h]
    refine ⟨.inr ⟨Nat.lt_of_not_le hlimit, rfl⟩, ?_⟩
    rw [sameButCount_leftover]
    exact ⟨.inr, fun hspares => hspares.resolve_left hlimit⟩

/-- A new machine whose turtle is hidden. -/
def hiddenTurtle : Machine :=
  (Machine.new {} .zeros).mapScene fun s => s.mapTurtle fun t => { t with visible := false }

theorem run_fault_limits :
    limits.run ⟨"limits", [.num 5, .text "x"], 1⟩ hiddenTurtle =
        .fault ⟨1, .notNumeric "limits" 2 "x"⟩
          { hiddenTurtle with commands := 1, limits := hiddenTurtle.limits.withCommands 5 } ∧
      ¬hiddenTurtle.SameButCount
        { hiddenTurtle with commands := 1, limits := hiddenTurtle.limits.withCommands 5 } := by
  have hrun : limits.run ⟨"limits", [.num 5, .text "x"], 1⟩ hiddenTurtle =
      .fault ⟨1, .notNumeric "limits" 2 "x"⟩
        { hiddenTurtle with commands := 1, limits := hiddenTurtle.limits.withCommands 5 } := rfl
  refine ⟨hrun, fun h => ?_⟩
  rcases (run_fault hrun).2.1 h with hlimit | hspares
  · exact absurd hlimit (by decide)
  · exact absurd (congrArg Limits.maxCommands hspares) (by decide)

/-- A `show` that fails makes a hidden turtle visible. -/
theorem show_fault_reveals :
    ∃ f m', reveal.run ⟨"show", [.text "x"], 1⟩ hiddenTurtle = .fault f m' ∧
      hiddenTurtle.scene.turtle.visible = false ∧ m'.scene.turtle.visible = true :=
  ⟨_, _, rfl, rfl, rfl⟩

end TurtleGraphics
