import TurtleGraphics.Paint.Color

/-!
# TurtleGraphics.Run.Config

What a run starts from: its budgets and the defaults of commands.
-/

namespace TurtleGraphics

/-- The budgets of a run. -/
structure Limits where
  /-- How deep calls may nest. -/
  maxDepth : Nat := 360
  /-- How many calls may be made from inside another call. -/
  maxRecursions : Nat := 888888
  /-- How many commands may be carried out. -/
  maxCommands : Nat := 88888888
  deriving DecidableEq, Repr

namespace Limits

/-- No setting allows calls to nest deeper than this. -/
def depthCeiling : Nat := 1000

def withDepth (l : Limits) (depth : Nat) : Limits :=
  { l with maxDepth := min depth depthCeiling }

def withRecursions (l : Limits) (n : Nat) : Limits :=
  { l with maxRecursions := n }

def withCommands (l : Limits) (n : Nat) : Limits :=
  { l with maxCommands := n }

/-- The limits with the depth brought under the ceiling. -/
def capped (l : Limits) : Limits :=
  l.withDepth l.maxDepth

end Limits

structure Config where
  limits : Limits := {}
  color : Color := .white
  thickness : Float := 1
  /-- The size of a visible turtle. -/
  glyphSize : Float := 10
  labelSize : Float := 12
  gridSize : Float := 100
  gridDivisions : Nat := 10
  /-- Where random colors start. Without it they come from outside. -/
  seed : Option UInt64 := none

end TurtleGraphics
