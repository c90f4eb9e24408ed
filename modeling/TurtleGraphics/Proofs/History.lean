import TurtleGraphics.Proofs.Trace

/-!
# TurtleGraphics.Proofs.History

A run with a fixed seed does not depend on what its machine did before. A run begins with a reset, and a
reset takes all it restores from the configuration and, without a seed, from outside
(`Machine.reset_eq_new`). These two are the basis of a machine, and with a seed the basis never changes: a
command touches the scene, the limits and the random stream and nothing else (`Command.kept_act`), no
other statement touches it, and a reset takes nothing from outside. So a machine that has served any
requests runs a program as a new one does (`run_after_history`).
-/

namespace TurtleGraphics

open Program (Statement)

/-! ## What commands leave as it is -/

/-- The states differ in scene, limits and random stream at most. -/
def Machine.Kept (m m' : Machine) : Prop :=
  m' = { m with scene := m'.scene, limits := m'.limits, stream := m'.stream }

theorem Machine.Kept.refl (m : Machine) : m.Kept m :=
  rfl

theorem Machine.Kept.trans {a b c : Machine} (hab : a.Kept b) (hbc : b.Kept c) : a.Kept c := by
  unfold Kept at hbc ⊢
  rw [hab] at hbc
  exact hbc

theorem Machine.Kept.given {α : Type} {m m' : Machine} (h : m.Kept m') (r : Except Fault α)
    {next : α → Outcome} (hnext : ∀ a, m.Kept (next a).machine) :
    m.Kept (Outcome.given m' r next).machine := by
  cases r with
  | error f => exact h
  | ok a => exact hnext a

/-- What a reset starts from: the configuration, and what comes from outside. -/
def Machine.basis (m : Machine) : Config × Entropy :=
  (m.config, m.entropy)

namespace Command

theorem kept_setIfGiven (m : Machine) (n : Option Nat) (f : Nat → Limits → Limits) :
    m.Kept (setIfGiven m n f) := by
  cases n with
  | none => rfl
  | some n => rfl

theorem kept_setLimits (c : Invocation) (m : Machine) : m.Kept (setLimits c m).machine := by
  refine .given (.refl m) _ fun commands => ?_
  have hcommands := kept_setIfGiven m commands fun n l => l.withCommands n
  refine .given hcommands _ fun recursions => ?_
  have hrecursions := hcommands.trans (kept_setIfGiven _ recursions fun n l => l.withRecursions n)
  exact .given hrecursions _ fun depth => hrecursions.trans (kept_setIfGiven _ depth _)

theorem kept_act (command : Command) (c : Invocation) (m : Machine) :
    m.Kept (command.act c m).machine := by
  cases command with
  | home | penUp | penDown | hide | fill | erase => rfl
  | limits => exact kept_setLimits c m
  | reveal =>
    have hshown : m.Kept (m.mapScene fun s => s.mapTurtle fun t => { t with visible := true }) := rfl
    exact hshown.given _ fun _ => rfl
  | _ => exact .given (.refl m) _ fun _ => rfl

theorem basis_run (command : Command) (c : Invocation) (m : Machine) :
    (command.run c m).machine.basis = m.basis := by
  unfold run
  split
  · rfl
  · rw [kept_act command c { m with commands := m.commands + 1 }]
    rfl

end Command

/-! ## Runs -/

namespace Machine

theorem Quiet.basis {m m' : Machine} (h : m.Quiet m') : m'.basis = m.basis := by
  rw [Machine.basis, h.config, h.entropy, Machine.basis]

theorem basis_runBody (room : Nat) (statements : List Statement) (cx : Context) (m : Machine) :
    (runBody room statements cx m).machine.basis = m.basis := by
  have hstep : ∀ d : Dispatch, d.before.basis = m.basis → d.after.basis = m.basis :=
    fun d h => (d.command.basis_run d.invocation d.before).trans h
  exact ((trace_runBody room statements cx m).invariant (fun hq h => hq.basis.trans h) hstep rfl).2

theorem basis_run (m : Machine) (source : String) : (m.run source).2.basis = m.reset.basis := by
  unfold run
  cases Program.parse source with
  | error f => rfl
  | ok program =>
    have hbasis : (m.reset.exec program).machine.basis = m.reset.basis :=
      basis_runBody maxBodyNesting program .root m.reset
    cases hexec : m.reset.exec program with
    | done m' =>
      rw [hexec] at hbasis
      simp only [hexec]
      exact hbasis
    | fault f m' =>
      rw [hexec] at hbasis
      simp only [hexec]
      exact hbasis

/-- Nothing but the basis outlives a reset. -/
theorem reset_eq_new (m : Machine) : m.reset = new m.basis.1 m.basis.2 :=
  rfl

/-- With a seed, a reset takes nothing from outside. -/
theorem basis_reset {m : Machine} {seed : UInt64} (h : m.config.seed = some seed) :
    m.reset.basis = m.basis := by
  rw [basis, basis, reset, h]
  rfl

theorem run_eq_of_basis {m m' : Machine} (h : m.basis = m'.basis) (source : String) :
    m.run source = m'.run source := by
  unfold run
  rw [reset_eq_new, reset_eq_new, h]

theorem draw_machine (m : Machine) (source : String) : (m.draw source).2 = (m.run source).2 := by
  unfold draw
  rcases m.run source with ⟨_ | _, m'⟩ <;> rfl

end Machine

/-! ## Histories -/

/-- What a host can ask of a machine. -/
inductive Request where
  | draw (source : String)
  | run (source : String)
  | reset

namespace Machine

/-- The state after a request, whether what was asked went well or not. -/
def serve (m : Machine) : Request → Machine
  | .draw source => (m.draw source).2
  | .run source => (m.run source).2
  | .reset => m.reset

def serveAll (m : Machine) (requests : List Request) : Machine :=
  requests.foldl serve m

theorem basis_serve {m : Machine} {seed : UInt64} (h : m.config.seed = some seed) (request : Request) :
    (m.serve request).basis = m.basis := by
  cases request with
  | draw source =>
    rw [serve, draw_machine, basis_run, basis_reset h]
  | run source =>
    rw [serve, basis_run, basis_reset h]
  | reset => exact basis_reset h

theorem basis_serveAll {m : Machine} {seed : UInt64} (h : m.config.seed = some seed)
    (requests : List Request) : (m.serveAll requests).basis = m.basis := by
  induction requests generalizing m with
  | nil => rfl
  | cons request requests ih =>
    have hstep := basis_serve h request
    have hconfig : (m.serve request).config = m.config := congrArg Prod.fst hstep
    exact (ih (hconfig ▸ h)).trans hstep

end Machine

/-- With a fixed seed, after any requests, a run ends with the same count or fault as on a new machine
with the same configuration, and leaves the machine in the same state: turtle and drawing, counters,
report, limits, random stream, functions and procedures. -/
theorem run_after_history (config : Config) (seed : UInt64) (entropy : Entropy)
    (history : List Request) (source : String) :
    ((Machine.new { config with seed := some seed } entropy).serveAll history).run source =
      (Machine.new { config with seed := some seed } entropy).run source :=
  Machine.run_eq_of_basis (Machine.basis_serveAll rfl history) source

end TurtleGraphics
