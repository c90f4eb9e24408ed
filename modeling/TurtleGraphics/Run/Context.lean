import TurtleGraphics.Formula.Library

/-!
# TurtleGraphics.Run.Context

Argument values, and the bindings of one call of a procedure. Formulas see only the numbers among
them.
-/

namespace TurtleGraphics

inductive Value where
  | num (x : Float)
  | text (s : String)
  deriving DecidableEq

namespace Value

def num? : Value → Option Float
  | num x => some x
  | text _ => none

def text? : Value → Option String
  | num _ => none
  | text s => some s

def sortName : Value → String
  | num _ => "number"
  | text _ => "string"

/-- The value as drawn text. -/
def display : Value → String
  | num x => Number.label x
  | text s => s

end Value

structure Context where
  /-- The bindings; of two with one name the first counts. -/
  bindings : List (String × Value)
  /-- How many calls this one is inside of, itself included. -/
  depth : Nat

namespace Context

/-- Outside all calls. -/
def root : Context := ⟨[], 0⟩

/-- Inside a call with given bindings. -/
def call (cx : Context) (bindings : List (String × Value)) : Context :=
  ⟨bindings, cx.depth + 1⟩

def get? (cx : Context) (name : String) : Option Value :=
  cx.bindings.lookup name

/-- The variables that formulas see. -/
def scope (cx : Context) : Formula.Scope :=
  fun name => (cx.get? name).bind Value.num?

end Context

/-- Parameters with their arguments, the last one first. A missing argument is 0, and arguments
without a parameter are dropped. -/
def bindParams (params : List String) (args : List Value) : List (String × Value) :=
  (params.zip (args ++ List.replicate params.length (.num 0))).reverse

end TurtleGraphics
