import TurtleGraphics.Run.Call

/-!
# TurtleGraphics.Run.Execution

Executing programs. `execute` carries out the statements of one body, with a given way to run the
bodies inside it; `runBody` supplies that way by recursion on how deep bodies may still nest. Of the
guarded statements of one body only the first whose guard holds is run.
-/

namespace TurtleGraphics

open Program (Statement)

/-! ## Bodies -/

/-- How often a loop runs: a count is cut off to whole; what is not positive and finite is 0. -/
def loopCount (x : Float) : Nat :=
  if x.isFinite && 0 < x then x.toUInt64.toNat else 0

/-- Repeats a step until it faults. -/
def repeatStep (step : Machine → Outcome) : Nat → Machine → Outcome
  | 0, m => .done m
  | n + 1, m =>
    match step m with
    | .done m => repeatStep step n m
    | .fault f m => .fault f m

/-- Runs a loop; one whose body is empty has nothing to run. -/
def runLoop (body : BodyRunner) (cx : Context) (statements : List Statement) (count : Float)
    (m : Machine) : Outcome :=
  if statements.all Statement.isEmpty then .done m
  else repeatStep (body statements cx) (loopCount count) m

/-- Carries out the statements of a body. `fired` says whether a guard of this body has held. -/
def execute (body : BodyRunner) (cx : Context) : Bool → List Statement → Machine → Outcome
  | _, [], m => .done m
  | fired, .empty _ :: rest, m => execute body cx fired rest m
  | fired, .define _ name params statements :: rest, m =>
    execute body cx fired rest (m.defineProcedure name ⟨params, statements⟩)
  | fired, .loop mark count statements :: rest, m =>
    match m.evalFormula cx mark.line count with
    | .error f => .fault f m
    | .ok x =>
      match runLoop body cx statements x m with
      | .fault f m => .fault f m
      | .done m => execute body cx fired rest m
  | fired, .when mark guard statements :: rest, m =>
    if fired then execute body cx fired rest m
    else
      match m.evalFormula cx mark.line guard with
      | .error f => .fault f m
      | .ok x =>
        if Formula.isTrue x then
          match body statements cx m with
          | .fault f m => .fault f m
          | .done m => execute body cx true rest m
        else execute body cx false rest m
  | fired, .call mark name args :: rest, m =>
    match m.call body cx mark name args with
    | .fault f m => .fault f m
    | .done m => execute body cx fired rest m

/-- The line of the first statement, or 0. -/
def firstLine (statements : List Statement) : Nat :=
  match statements with
  | [] => 0
  | s :: _ => s.line

/-- Runs a body inside which bodies may nest `room - 1` deep. -/
def runBody : Nat → BodyRunner
  | 0 => fun statements _ m => .fault ⟨firstLine statements, .bodiesTooDeep⟩ m
  | room + 1 => fun statements cx m => execute (runBody room) cx false statements m

/-! ## Runs -/

namespace Machine

/-- Runs a program from the present state. -/
def exec (m : Machine) (program : List Statement) : Outcome :=
  runBody maxBodyNesting program .root m

/-- Ends a run that went well. -/
def succeed (m : Machine) (program : List Statement) : Machine :=
  { m.mapScene Scene.finish with report := .success program m.commands }

/-- Ends a run that failed. -/
def fail (m : Machine) (f : Fault) (source : String) : Machine :=
  { m.mapScene Scene.finish with report := .failure f.display source }

/-- Runs a source text from a fresh state. Gives the number of commands carried out or the fault, and
the state reached. -/
def run (m : Machine) (source : String) : Except Fault Nat × Machine :=
  let m := m.reset
  match Program.parse source with
  | .error f => (.error f, m.fail f source)
  | .ok program =>
    match m.exec program with
    | .done m => (.ok m.commands, m.succeed program)
    | .fault f m => (.error f, m.fail f source)

end Machine

/-- The result of a run as a host sees it. -/
structure Summary where
  commandCount : Nat
  error : Option String
  deriving DecidableEq, Repr

def Summary.success (r : Summary) : Bool :=
  r.error.isNone

/-- Runs a source text for a host. -/
def Machine.draw (m : Machine) (source : String) : Summary × Machine :=
  match m.run source with
  | (.ok n, m) => (⟨n, none⟩, m)
  | (.error f, m) => (⟨m.commands, some f.display⟩, m)

end TurtleGraphics
