import TurtleGraphics.Run.Execution

/-!
# TurtleGraphics.Proofs.Statements

The execution of a body as a sequence of steps. `Outcome.andThen` goes on after a step that is done and
stops at one that faults; with it, what `execute` and `repeatStep` do is one equation for each kind of
statement. Proofs about runs use these equations and follow a run step by step.
-/

namespace TurtleGraphics

open Program (Statement Mark)

/-- Goes on with the state after a step, unless the step faults. -/
def Outcome.andThen (o : Outcome) (next : Machine → Outcome) : Outcome :=
  match o with
  | done m => next m
  | fault f m => fault f m

theorem Outcome.andThen_assoc (o : Outcome) (next last : Machine → Outcome) :
    (o.andThen next).andThen last = o.andThen fun m => (next m).andThen last := by
  cases o <;> rfl

/-- Of the state, arguments depend on the formula functions only. -/
theorem Machine.argumentValues_congr {m m' : Machine} (h : m'.library = m.library) (cx : Context)
    (line : Nat) (words : List String) :
    m'.argumentValues cx line words = m.argumentValues cx line words := by
  induction words with
  | nil => rfl
  | cons word words ih =>
    have hvalue : m'.argumentValue cx line word = m.argumentValue cx line word := by
      simp only [argumentValue, evalFormula, h]
    rw [argumentValues, argumentValues, hvalue, ih]

theorem repeatStep_succ (step : Machine → Outcome) (n : Nat) (m : Machine) :
    repeatStep step (n + 1) m = (step m).andThen (repeatStep step n) := by
  rw [repeatStep]
  cases step m <;> rfl

section Equations

variable (body : BodyRunner) (cx : Context) (fired : Bool) (rest : List Statement) (m : Machine)

theorem execute_loop (mark : Mark) (count : String) (statements : List Statement) :
    execute body cx fired (.loop mark count statements :: rest) m =
      Outcome.given m (m.evalFormula cx mark.line count) fun x =>
        (runLoop body cx statements x m).andThen (execute body cx fired rest) := by
  rw [execute]
  cases m.evalFormula cx mark.line count with
  | error f => rfl
  | ok x => cases hloop : runLoop body cx statements x m <;> simp [Outcome.given, Outcome.andThen, hloop]

theorem execute_when (mark : Mark) (guard : String) (statements : List Statement) :
    execute body cx false (.when mark guard statements :: rest) m =
      Outcome.given m (m.evalFormula cx mark.line guard) fun x =>
        if Formula.isTrue x then (body statements cx m).andThen (execute body cx true rest)
        else execute body cx false rest m := by
  rw [execute]
  cases m.evalFormula cx mark.line guard with
  | error f => rfl
  | ok x => cases body statements cx m <;> simp [Outcome.given, Outcome.andThen]

/-- A guard behind one that held is not looked at. -/
theorem execute_when_fired (mark : Mark) (guard : String) (statements : List Statement) :
    execute body cx true (.when mark guard statements :: rest) m = execute body cx true rest m := by
  rw [execute, if_pos rfl]

theorem execute_call (mark : Mark) (name : String) (args : List String) :
    execute body cx fired (.call mark name args :: rest) m =
      (m.call body cx mark name args).andThen (execute body cx fired rest) := by
  rw [execute]
  cases m.call body cx mark name args <;> rfl

end Equations

end TurtleGraphics
