import TurtleGraphics.Fault
import TurtleGraphics.Formula.Template
import TurtleGraphics.Program.Statement
import TurtleGraphics.Run.Context
import TurtleGraphics.Run.Scene

/-!
# TurtleGraphics.Run.Machine

The state of a run. A step either is done or ends in a fault; both keep the state reached, because a
run that fails leaves its drawing as it is.
-/

namespace TurtleGraphics

open Program (Statement)

/-- How the last run ended. -/
inductive Report where
  | idle
  | success (program : List Statement) (commands : Nat)
  | failure (message source : String)

/-- A procedure defined by the program. -/
structure Procedure where
  params : List String
  body : List Statement

structure Machine where
  config : Config
  scene : Scene
  /-- Commands carried out in this run. -/
  commands : Nat
  /-- Calls made from inside another call in this run. -/
  recursions : Nat
  report : Report
  limits : Limits
  stream : Keystream
  /-- What later resets take their streams from, if there is no seed. -/
  entropy : Entropy
  library : Formula.Library
  procedures : Std.TreeMap String Procedure

namespace Machine

def new (config : Config) (entropy : Entropy) : Machine where
  config := config
  scene := .new config
  commands := 0
  recursions := 0
  report := .idle
  limits := config.limits.capped
  stream := .start entropy config.seed
  entropy := entropy.after config.seed
  library := .empty
  procedures := ∅

/-- Restores all that a run starts from, and forgets its drawing and its definitions. The configuration
stays; without a seed there is a new random stream each time. -/
def reset (m : Machine) : Machine :=
  { m with
    scene := .new m.config
    commands := 0
    recursions := 0
    report := .idle
    limits := m.config.limits.capped
    stream := .start m.entropy m.config.seed
    entropy := m.entropy.after m.config.seed
    library := .empty
    procedures := ∅ }

def mapScene (m : Machine) (f : Scene → Scene) : Machine :=
  { m with scene := f m.scene }

def mapLimits (m : Machine) (f : Limits → Limits) : Machine :=
  { m with limits := f m.limits }

def defineProcedure (m : Machine) (name : String) (p : Procedure) : Machine :=
  { m with procedures := m.procedures.insert name p }

/-- The value of a formula text at a line. -/
def evalFormula (m : Machine) (cx : Context) (line : Nat) (source : String) :
    Except Fault Float :=
  match m.library.read source with
  | .error e => .error ⟨line, .formula e⟩
  | .ok tree =>
    match m.library.eval cx.scope tree with
    | .error e => .error ⟨line, .formula e⟩
    | .ok x => .ok x

end Machine

/-- The end of a step. -/
inductive Outcome where
  | done (m : Machine)
  | fault (f : Fault) (m : Machine)

namespace Outcome

def machine : Outcome → Machine
  | done m => m
  | fault _ m => m

/-- Goes on with the value of a computation that leaves the state as it is. -/
def given {α : Type} (m : Machine) (r : Except Fault α) (next : α → Outcome) : Outcome :=
  match r with
  | .error f => fault f m
  | .ok a => next a

end Outcome
end TurtleGraphics
