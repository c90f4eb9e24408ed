import TurtleGraphics.Paint.Color
import TurtleGraphics.Space.Quaternion

/-!
# TurtleGraphics.Picture.Primitive

What a drawing consists of.
-/

namespace TurtleGraphics

/-- Where the turtle is and how it looks. A hidden turtle has size 0. -/
structure Pose where
  position : Vector3
  orientation : Orientation
  color : Color
  size : Float
  deriving DecidableEq

def Pose.isVisible (p : Pose) : Bool :=
  0 < p.size

/-- A line through points. -/
structure Path where
  points : Array Vector3
  color : Color
  thickness : Float
  filled : Bool
  deriving DecidableEq

namespace Path

def extend (point : Vector3) (p : Path) : Path :=
  { p with points := p.points.push point }

def fill (p : Path) : Path :=
  { p with filled := true }

end Path

/-- Text at a point. -/
structure Lettering where
  anchor : Vector3
  text : String
  size : Float
  color : Color
  orientation : Orientation
  deriving DecidableEq

/-- A square grid. -/
structure Grid where
  origin : Vector3
  size : Float
  divisions : Nat
  color : Color
  orientation : Orientation
  deriving DecidableEq

inductive Primitive where
  | path (path : Path)
  | head (pose : Pose)
  | text (lettering : Lettering)
  | grid (grid : Grid)
  /-- Discards all that was drawn before. -/
  | clear
  deriving DecidableEq

namespace Primitive

def kindName : Primitive → String
  | path _ => "path"
  | head _ => "head"
  | text _ => "text"
  | grid _ => "grid"
  | clear => "clear"

def path? : Primitive → Option Path
  | path p => some p
  | _ => none

/-- Changes a path; other primitives stay. -/
def mapPath (f : Path → Path) : Primitive → Primitive
  | path p => path (f p)
  | other => other

end Primitive
end TurtleGraphics
