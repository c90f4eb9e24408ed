import TurtleGraphics.Proofs.Statements

/-!
# TurtleGraphics.Proofs.Stepping

Runs step by step. A `Moment` of a run has the bodies and loops that are under way as a stack of frames,
a counter of the bodies among them, and how far the run has come: a state to go on from, or a fault that
ends one frame after the other. `Moment.step` carries out one statement, enters a body or leaves one;
the counter goes up by one at every entry and down by one at every exit.

The interpreter has no counter, because it recurses on the room that is left for bodies. The two agree:
from the entry of a body, steps lead to the outcome that the interpreter has for it, with the frames and
the counter as they were before (`leads_runBody`), and the same holds of whole runs (`leads_run`).
-/

namespace TurtleGraphics

open Program (Statement Mark)

/-! ## Moments -/

/-- What is under way: the rest of a body, or the repetitions of a loop that are left. -/
inductive Frame where
  | body (cx : Context) (fired : Bool) (rest : List Statement)
  | loop (cx : Context) (statements : List Statement) (left : Nat)

def Frame.context : Frame → Context
  | body cx _ _ => cx
  | loop cx _ _ => cx

def Frame.isBody : Frame → Bool
  | body _ _ _ => true
  | loop _ _ _ => false

structure Moment where
  /-- The innermost frame is the first. -/
  frames : List Frame
  nesting : Nat
  outcome : Outcome

/-- What a call comes to before any body is run: an outcome, or a body to enter. -/
inductive CallStart where
  | ended (o : Outcome)
  | into (statements : List Statement) (cx : Context) (m : Machine)

def Machine.beginCall (m : Machine) (cx : Context) (mark : Mark) (name : String)
    (args : List String) : CallStart :=
  if definesFunction name then .ended (m.defineFunction mark.line name args)
  else
    match m.argumentValues cx mark.line args with
    | .error f => .ended (.fault f m)
    | .ok values =>
      match m.target cx mark.line name with
      | .error f => .ended (.fault f m)
      | .ok (.command c) => .ended (c.run ⟨name, values, mark.line⟩ m)
      | .ok (.procedure p) =>
        let inner := cx.call (bindParams p.params values)
        match m.admitCall mark.line inner.depth with
        | .error f => .ended (.fault f m)
        | .ok m => .into p.body inner m

def CallStart.finish (body : BodyRunner) : CallStart → Outcome
  | ended o => o
  | into statements cx m => body statements cx m

namespace Moment

def machine (s : Moment) : Machine :=
  s.outcome.machine

/-- Enters a body, if there are not too many under way. -/
def enter (frames : List Frame) (nesting : Nat) (cx : Context) (statements : List Statement)
    (m : Machine) : Moment :=
  if maxBodyNesting ≤ nesting then
    ⟨frames, nesting, .fault ⟨firstLine statements, .bodiesTooDeep⟩ m⟩
  else ⟨.body cx false statements :: frames, nesting + 1, .done m⟩

/-- Carries out a statement of a body, of which `rest` is left. -/
def perform (frames : List Frame) (nesting : Nat) (cx : Context) (fired : Bool)
    (rest : List Statement) (m : Machine) (statement : Statement) : Moment :=
  let outer := Frame.body cx fired rest :: frames
  match statement with
  | .empty _ => ⟨outer, nesting, .done m⟩
  | .define _ name params statements =>
    ⟨outer, nesting, .done (m.defineProcedure name ⟨params, statements⟩)⟩
  | .loop mark count statements =>
    match m.evalFormula cx mark.line count with
    | .error f => ⟨outer, nesting, .fault f m⟩
    | .ok x =>
      if statements.all Statement.isEmpty then ⟨outer, nesting, .done m⟩
      else ⟨.loop cx statements (loopCount x) :: outer, nesting, .done m⟩
  | .when mark guard statements =>
    if fired then ⟨outer, nesting, .done m⟩
    else
      match m.evalFormula cx mark.line guard with
      | .error f => ⟨outer, nesting, .fault f m⟩
      | .ok x =>
        if Formula.isTrue x then enter (.body cx true rest :: frames) nesting cx statements m
        else ⟨outer, nesting, .done m⟩
  | .call mark name args =>
    match m.beginCall cx mark name args with
    | .ended o => ⟨outer, nesting, o⟩
    | .into statements inner m => enter outer nesting inner statements m

/-- One step. There is none when nothing is under way. -/
def step : Moment → Option Moment
  | ⟨[], _, _⟩ => none
  | ⟨.body _ _ _ :: frames, nesting, .fault f m⟩ => some ⟨frames, nesting - 1, .fault f m⟩
  | ⟨.body _ _ [] :: frames, nesting, .done m⟩ => some ⟨frames, nesting - 1, .done m⟩
  | ⟨.body cx fired (statement :: rest) :: frames, nesting, .done m⟩ =>
    some (perform frames nesting cx fired rest m statement)
  | ⟨.loop _ _ _ :: frames, nesting, .fault f m⟩ => some ⟨frames, nesting, .fault f m⟩
  | ⟨.loop _ _ 0 :: frames, nesting, .done m⟩ => some ⟨frames, nesting, .done m⟩
  | ⟨.loop cx statements (left + 1) :: frames, nesting, .done m⟩ =>
    some (enter (.loop cx statements left :: frames) nesting cx statements m)

/-- The moment that a number of steps leads to. -/
def steps : Nat → Moment → Option Moment
  | 0, s => some s
  | n + 1, s => s.step.bind (steps n)

theorem steps_succ (n : Nat) (s : Moment) : s.steps (n + 1) = (s.steps n).bind step := by
  induction n generalizing s with
  | zero => cases h : s.step <;> simp [steps, h]
  | succ n ih =>
    rw [steps]
    cases h : s.step with
    | none => simp [steps, h]
    | some t => simpa [steps, h] using ih t

theorem steps_add (n k : Nat) (s : Moment) : s.steps (n + k) = (s.steps n).bind (steps k) := by
  induction n generalizing s with
  | zero => simp [steps]
  | succ n ih =>
    rw [Nat.add_right_comm, steps, steps]
    cases s.step with
    | none => rfl
    | some t => exact ih t

def Leads (s t : Moment) : Prop :=
  ∃ n, s.steps n = some t

theorem Leads.refl (s : Moment) : s.Leads s :=
  ⟨0, rfl⟩

theorem Leads.trans {s t u : Moment} (hst : s.Leads t) (htu : t.Leads u) : s.Leads u := by
  obtain ⟨n, hn⟩ := hst
  obtain ⟨k, hk⟩ := htu
  exact ⟨n + k, by rw [steps_add, hn]; exact hk⟩

theorem Leads.of_step {s t : Moment} (h : s.step = some t) : s.Leads t :=
  ⟨1, by simp [steps, h]⟩

end Moment

/-! ## Bodies -/

open Moment

theorem Machine.finish_beginCall (body : BodyRunner) (m : Machine) (cx : Context) (mark : Mark)
    (name : String) (args : List String) :
    (m.beginCall cx mark name args).finish body = m.call body cx mark name args := by
  unfold beginCall call
  split
  · rfl
  · cases m.argumentValues cx mark.line args with
    | error f => rfl
    | ok values =>
      cases m.target cx mark.line name with
      | error f => rfl
      | ok target =>
        cases target with
        | command c => rfl
        | procedure p =>
          simp only [callProcedure]
          cases m.admitCall mark.line (cx.call (bindParams p.params values)).depth <;> rfl

section Bodies

variable {body : BodyRunner} {nesting : Nat}

theorem leads_andThen {s : Moment} {frames : List Frame} {cx : Context} {fired : Bool}
    {rest : List Statement} {o : Outcome} {next : Machine → Outcome}
    (hs : s.Leads ⟨.body cx fired rest :: frames, nesting, o⟩)
    (hnext : ∀ m, Leads ⟨.body cx fired rest :: frames, nesting, .done m⟩
      ⟨frames, nesting - 1, next m⟩) :
    s.Leads ⟨frames, nesting - 1, o.andThen next⟩ := by
  refine hs.trans ?_
  cases o with
  | done m => exact hnext m
  | fault f m => exact .of_step rfl

variable (hbody : ∀ frames statements cx m,
  (enter frames nesting cx statements m).Leads ⟨frames, nesting, body statements cx m⟩)

include hbody

theorem leads_repeat (frames : List Frame) (cx : Context) (statements : List Statement) (left : Nat)
    (m : Machine) :
    Leads ⟨.loop cx statements left :: frames, nesting, .done m⟩
      ⟨frames, nesting, repeatStep (body statements cx) left m⟩ := by
  induction left generalizing m with
  | zero => exact .of_step rfl
  | succ left ih =>
    have hround : Leads ⟨.loop cx statements (left + 1) :: frames, nesting, .done m⟩
        ⟨.loop cx statements left :: frames, nesting, body statements cx m⟩ :=
      .trans (.of_step rfl) (hbody _ statements cx m)
    refine hround.trans ?_
    rw [repeatStep_succ]
    cases body statements cx m with
    | done m' => exact ih m'
    | fault f m' => exact .of_step rfl

/-- Steps carry out the statements of a body as `execute` does, and then leave the body. -/
theorem leads_execute (frames : List Frame) (cx : Context) (fired : Bool)
    (statements : List Statement) (m : Machine) :
    Leads ⟨.body cx fired statements :: frames, nesting, .done m⟩
      ⟨frames, nesting - 1, execute body cx fired statements m⟩ := by
  induction statements generalizing fired m with
  | nil => exact .of_step rfl
  | cons statement rest ih =>
    have hperform : Leads ⟨.body cx fired (statement :: rest) :: frames, nesting, .done m⟩
        (perform frames nesting cx fired rest m statement) := .of_step rfl
    refine hperform.trans ?_
    cases statement with
    | empty mark => exact ih fired m
    | define mark name params statements => exact ih fired _
    | loop mark count statements =>
      rw [perform, execute_loop]
      cases m.evalFormula cx mark.line count with
      | error f => exact .of_step rfl
      | ok x =>
        refine leads_andThen ?_ (ih fired)
        unfold runLoop
        by_cases hempty : statements.all Statement.isEmpty = true
        · simp only [hempty]
          exact .refl _
        · simp only [hempty]
          exact leads_repeat hbody _ cx statements (loopCount x) m
    | when mark guard statements =>
      cases fired with
      | true => exact ih true m
      | false =>
        rw [perform, execute_when]
        cases m.evalFormula cx mark.line guard with
        | error f => exact .of_step rfl
        | ok x =>
          by_cases hx : Formula.isTrue x = true
          · simp only [Outcome.given, hx]
            exact leads_andThen (hbody _ statements cx m) (ih true)
          · simp only [Outcome.given, hx]
            exact ih false m
    | call mark name args =>
      rw [perform, execute_call, ← Machine.finish_beginCall]
      refine leads_andThen ?_ (ih fired)
      cases m.beginCall cx mark name args with
      | ended o => exact .refl _
      | into statements inner m' => exact hbody _ statements inner m'

end Bodies

/-- A body that is entered is left again, with the outcome that the interpreter has for it and the
counter as it was. -/
theorem leads_runBody {nesting room : Nat} (h : nesting + room = maxBodyNesting)
    (frames : List Frame) (statements : List Statement) (cx : Context) (m : Machine) :
    (enter frames nesting cx statements m).Leads ⟨frames, nesting, runBody room statements cx m⟩ := by
  induction room generalizing nesting frames statements cx m with
  | zero =>
    rw [enter, if_pos (by omega)]
    exact .refl _
  | succ room ih =>
    rw [enter, if_neg (by omega)]
    have hinner : (nesting + 1) + room = maxBodyNesting := by omega
    exact leads_execute (ih hinner) frames cx false statements m

theorem leads_enter (frames : List Frame) (nesting : Nat) (statements : List Statement) (cx : Context)
    (m : Machine) :
    (enter frames nesting cx statements m).Leads
      ⟨frames, nesting, runBody (maxBodyNesting - nesting) statements cx m⟩ := by
  by_cases h : nesting ≤ maxBodyNesting
  · exact leads_runBody (Nat.add_sub_cancel' h) frames statements cx m
  · rw [Nat.sub_eq_zero_of_le (by omega), enter, if_pos (by omega)]
    exact .refl _

/-! ## Runs -/

def Machine.firstMoment (m : Machine) (source : String) : Moment :=
  match Program.parse source with
  | .error f => ⟨[], 0, .fault f m.reset⟩
  | .ok program => enter [] 0 .root program m.reset

def Outcome.result : Outcome → Except Fault Nat
  | done m => .ok m.commands
  | fault f _ => .error f

/-- The steps of a run come to an end, with all bodies left, and the run gives what they came to. -/
theorem leads_run (m : Machine) (source : String) :
    ∃ o report, (m.firstMoment source).Leads ⟨[], 0, o⟩ ∧
      m.run source = (o.result, { o.machine.mapScene Scene.finish with report := report }) := by
  unfold Machine.firstMoment Machine.run
  cases Program.parse source with
  | error f => exact ⟨.fault f m.reset, _, .refl _, rfl⟩
  | ok program =>
    have hleads := leads_runBody (Nat.zero_add _) [] program .root m.reset
    cases hexec : m.reset.exec program with
    | done m' =>
      refine ⟨.done m', .success program m'.commands, hexec ▸ hleads, ?_⟩
      simp only [hexec]
      rfl
    | fault f m' =>
      refine ⟨.fault f m', .failure f.display source, hexec ▸ hleads, ?_⟩
      simp only [hexec]
      rfl

end TurtleGraphics
