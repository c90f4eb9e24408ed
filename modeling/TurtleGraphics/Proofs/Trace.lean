import TurtleGraphics.Proofs.Statements

/-!
# TurtleGraphics.Proofs.Trace

The commands that a run carries out. A dispatch is a command with its arguments and the state it finds;
`Machine.dispatches` lists those of a run in the order they are made, following the recursion of
`execute`. `Trace m ds m'` says that the dispatches `ds` lead from `m` to `m'`: each finds the state that
the one before it left, except for what statements other than commands change (`Machine.Quiet`). Every
run has the trace of its dispatches (`trace_runBody`), so what commands preserve, runs preserve
(`Trace.invariant`).
-/

namespace TurtleGraphics

open Program (Statement Mark)

/-! ## Dispatches -/

structure Dispatch where
  command : Command
  invocation : Invocation
  /-- The state before the command. -/
  before : Machine

namespace Dispatch

def outcome (d : Dispatch) : Outcome :=
  d.command.run d.invocation d.before

def after (d : Dispatch) : Machine :=
  d.outcome.machine

end Dispatch

/-- The dispatches made while a body runs. -/
abbrev BodyLog := List Statement → Context → Machine → List Dispatch

/-- What is logged after a step, if the run goes on. -/
def Outcome.thenLog (o : Outcome) (log : Machine → List Dispatch) : List Dispatch :=
  match o with
  | done m => log m
  | fault _ _ => []

def Machine.callLog (m : Machine) (log : BodyLog) (cx : Context) (mark : Mark) (name : String)
    (args : List String) : List Dispatch :=
  if definesFunction name then []
  else
    match m.argumentValues cx mark.line args with
    | .error _ => []
    | .ok values =>
      match m.target cx mark.line name with
      | .error _ => []
      | .ok (.procedure p) =>
        let inner := cx.call (bindParams p.params values)
        match m.admitCall mark.line inner.depth with
        | .error _ => []
        | .ok m => log p.body inner m
      | .ok (.command c) => [⟨c, ⟨name, values, mark.line⟩, m⟩]

def repeatLog (step : Machine → Outcome) (log : Machine → List Dispatch) :
    Nat → Machine → List Dispatch
  | 0, _ => []
  | n + 1, m => log m ++ (step m).thenLog (repeatLog step log n)

def loopLog (body : BodyRunner) (log : BodyLog) (cx : Context) (statements : List Statement)
    (count : Float) (m : Machine) : List Dispatch :=
  if statements.all Statement.isEmpty then []
  else repeatLog (body statements cx) (log statements cx) (loopCount count) m

/-- The dispatches of the statements of a body, if `log` has those of the bodies that `body` runs. -/
def executeLog (body : BodyRunner) (log : BodyLog) (cx : Context) :
    Bool → List Statement → Machine → List Dispatch
  | _, [], _ => []
  | fired, .empty _ :: rest, m => executeLog body log cx fired rest m
  | fired, .define _ name params statements :: rest, m =>
    executeLog body log cx fired rest (m.defineProcedure name ⟨params, statements⟩)
  | fired, .loop mark count statements :: rest, m =>
    match m.evalFormula cx mark.line count with
    | .error _ => []
    | .ok x =>
      loopLog body log cx statements x m ++
        (runLoop body cx statements x m).thenLog (executeLog body log cx fired rest)
  | fired, .when mark guard statements :: rest, m =>
    if fired then executeLog body log cx fired rest m
    else
      match m.evalFormula cx mark.line guard with
      | .error _ => []
      | .ok x =>
        if Formula.isTrue x then
          log statements cx m ++ (body statements cx m).thenLog (executeLog body log cx true rest)
        else executeLog body log cx false rest m
  | fired, .call mark name args :: rest, m =>
    m.callLog log cx mark name args ++
      (m.call body cx mark name args).thenLog (executeLog body log cx fired rest)

def logBody : Nat → BodyLog
  | 0 => fun _ _ _ => []
  | room + 1 => fun statements cx m =>
    executeLog (runBody room) (logBody room) cx false statements m

/-- The dispatches of the run of a source text, in the order they are made. -/
def Machine.dispatches (m : Machine) (source : String) : List Dispatch :=
  match Program.parse source with
  | .error _ => []
  | .ok program => logBody maxBodyNesting program .root m.reset

/-! ## Traces -/

/-- What statements other than commands leave as it is. -/
structure Machine.Quiet (m m' : Machine) : Prop where
  config : m'.config = m.config
  scene : m'.scene = m.scene
  commands : m'.commands = m.commands
  limits : m'.limits = m.limits
  stream : m'.stream = m.stream
  entropy : m'.entropy = m.entropy
  report : m'.report = m.report

theorem Machine.Quiet.refl (m : Machine) : m.Quiet m :=
  ⟨rfl, rfl, rfl, rfl, rfl, rfl, rfl⟩

theorem Machine.Quiet.trans {a b c : Machine} (hab : a.Quiet b) (hbc : b.Quiet c) : a.Quiet c :=
  ⟨hbc.config.trans hab.config, hbc.scene.trans hab.scene, hbc.commands.trans hab.commands,
    hbc.limits.trans hab.limits, hbc.stream.trans hab.stream, hbc.entropy.trans hab.entropy,
    hbc.report.trans hab.report⟩

inductive Trace : Machine → List Dispatch → Machine → Prop where
  | nil {m m' : Machine} : m.Quiet m' → Trace m [] m'
  | cons {m m' : Machine} {d : Dispatch} {ds : List Dispatch} :
      m.Quiet d.before → Trace d.after ds m' → Trace m (d :: ds) m'

namespace Trace

theorem refl (m : Machine) : Trace m [] m :=
  .nil (.refl m)

theorem after_quiet {a b c : Machine} {ds : List Dispatch} (hab : a.Quiet b) (h : Trace b ds c) :
    Trace a ds c := by
  cases h with
  | nil hq => exact .nil (hab.trans hq)
  | cons hq ht => exact .cons (hab.trans hq) ht

theorem append {a b c : Machine} {ds es : List Dispatch} (hd : Trace a ds b) (he : Trace b es c) :
    Trace a (ds ++ es) c := by
  induction hd with
  | nil hq => exact after_quiet hq he
  | cons hq _ ih => exact .cons hq (ih he)

theorem andThen {o : Outcome} {m : Machine} {ds : List Dispatch} {log : Machine → List Dispatch}
    {next : Machine → Outcome} (ho : Trace m ds o.machine)
    (hnext : ∀ m, Trace m (log m) (next m).machine) :
    Trace m (ds ++ o.thenLog log) (o.andThen next).machine := by
  cases o with
  | done m' => exact ho.append (hnext m')
  | fault f m' => exact ho.append (.refl m')

/-- What commands preserve holds throughout a run, if the rest of the interpreter cannot change it. -/
theorem invariant {P : Machine → Prop} (hquiet : ∀ {m m'}, m.Quiet m' → P m → P m')
    (hstep : ∀ d : Dispatch, P d.before → P d.after) {m m' : Machine} {ds : List Dispatch}
    (h : Trace m ds m') (hm : P m) : (∀ d ∈ ds, P d.before) ∧ P m' := by
  induction h with
  | nil hq => exact ⟨by simp, hquiet hq hm⟩
  | @cons m m' d ds hq _ ih =>
    have hd := hquiet hq hm
    obtain ⟨hds, hm'⟩ := ih (hstep d hd)
    exact ⟨List.forall_mem_cons.2 ⟨hd, hds⟩, hm'⟩

end Trace

/-! ## Runs have traces -/

theorem Machine.quiet_admitCall {m m' : Machine} {line depth : Nat}
    (h : m.admitCall line depth = .ok m') : m.Quiet m' := by
  unfold admitCall at h
  split at h
  · cases h
  · split at h
    · cases h
      exact .refl m
    · split at h
      · cases h
      · cases h
        exact ⟨rfl, rfl, rfl, rfl, rfl, rfl, rfl⟩

theorem Machine.quiet_defineFunction (m : Machine) (line : Nat) (keyword : String)
    (args : List String) : m.Quiet (m.defineFunction line keyword args).machine := by
  simp only [defineFunction]
  split
  · exact .refl m
  · split
    · exact .refl m
    · exact ⟨rfl, rfl, rfl, rfl, rfl, rfl, rfl⟩

theorem Machine.quiet_defineProcedure (m : Machine) (name : String) (p : Procedure) :
    m.Quiet (m.defineProcedure name p) :=
  ⟨rfl, rfl, rfl, rfl, rfl, rfl, rfl⟩

section Bodies

variable {body : BodyRunner} {log : BodyLog} {cx : Context}
  (hbody : ∀ statements cx m, Trace m (log statements cx m) (body statements cx m).machine)

include hbody

theorem trace_call (m : Machine) (mark : Mark) (name : String) (args : List String) :
    Trace m (m.callLog log cx mark name args) (m.call body cx mark name args).machine := by
  unfold Machine.callLog Machine.call
  by_cases hdef : definesFunction name = true
  · rw [if_pos hdef, if_pos hdef]
    exact .nil (m.quiet_defineFunction mark.line name args)
  · rw [if_neg hdef, if_neg hdef]
    cases m.argumentValues cx mark.line args with
    | error f => exact .refl m
    | ok values =>
      cases m.target cx mark.line name with
      | error f => exact .refl m
      | ok target =>
        cases target with
        | command c => exact .cons (.refl m) (.refl _)
        | procedure p =>
          simp only [Machine.callProcedure]
          cases hadmit : m.admitCall mark.line (cx.call (bindParams p.params values)).depth with
          | error f => exact .refl m
          | ok m' => exact .after_quiet (Machine.quiet_admitCall hadmit) (hbody _ _ _)

theorem trace_repeat (statements : List Statement) (n : Nat) (m : Machine) :
    Trace m (repeatLog (body statements cx) (log statements cx) n m)
      (repeatStep (body statements cx) n m).machine := by
  induction n generalizing m with
  | zero => exact .refl m
  | succ n ih =>
    rw [repeatLog, repeatStep_succ]
    exact .andThen (hbody statements cx m) ih

theorem trace_loop (statements : List Statement) (count : Float) (m : Machine) :
    Trace m (loopLog body log cx statements count m)
      (runLoop body cx statements count m).machine := by
  unfold loopLog runLoop
  split
  · exact .refl m
  · exact trace_repeat hbody statements _ m

theorem trace_execute (statements : List Statement) (fired : Bool) (m : Machine) :
    Trace m (executeLog body log cx fired statements m)
      (execute body cx fired statements m).machine := by
  -- the log follows the recursion of `execute`, so each kind of statement is one step of both
  induction statements generalizing fired m with
  | nil => exact .refl m
  | cons s rest ih =>
    cases s with
    | empty mark => exact ih fired m
    | define mark name params statements =>
      exact .after_quiet (m.quiet_defineProcedure name _) (ih fired _)
    | loop mark count statements =>
      rw [executeLog, execute_loop]
      cases m.evalFormula cx mark.line count with
      | error f => exact .refl m
      | ok x => exact .andThen (trace_loop hbody statements x m) (ih fired)
    | when mark guard statements =>
      rw [executeLog]
      cases fired with
      | true =>
        rw [execute_when_fired]
        exact ih true m
      | false =>
        rw [execute_when]
        cases m.evalFormula cx mark.line guard with
        | error f => exact .refl m
        | ok x =>
          by_cases hx : Formula.isTrue x = true
          · simp only [Outcome.given, hx]
            exact .andThen (hbody statements cx m) (ih true)
          · simp only [Outcome.given, hx]
            exact ih false m
    | call mark name args =>
      rw [executeLog, execute_call]
      exact .andThen (trace_call hbody m mark name args) (ih fired)

end Bodies

theorem trace_runBody (room : Nat) :
    ∀ statements cx m, Trace m (logBody room statements cx m) (runBody room statements cx m).machine := by
  induction room with
  | zero => exact fun statements cx m => .refl m
  | succ room ih => exact fun statements cx m => trace_execute ih statements false m

/-- The state in which the statements of a run end. -/
theorem trace_run (m : Machine) (source : String) :
    ∃ last, Trace m.reset (m.dispatches source) last ∧
      (m.run source).2.scene = last.scene.finish := by
  unfold Machine.dispatches Machine.run
  cases Program.parse source with
  | error f => exact ⟨m.reset, .refl _, rfl⟩
  | ok program =>
    refine ⟨_, trace_runBody maxBodyNesting program .root m.reset, ?_⟩
    simp only [Machine.exec]
    cases runBody maxBodyNesting program .root m.reset with
    | done m' => rfl
    | fault f m' => rfl

end TurtleGraphics
