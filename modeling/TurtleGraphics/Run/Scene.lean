import TurtleGraphics.Picture.Timeline
import TurtleGraphics.Run.Config

/-!
# TurtleGraphics.Run.Scene

The turtle and what it has drawn. Movement is defined on both together: with the pen down a move adds
a segment to the open path or begins a new path, with the pen up it closes the path.
-/

namespace TurtleGraphics

structure Turtle where
  position : Vector3
  orientation : Orientation
  penDown : Bool
  color : Color
  thickness : Float
  visible : Bool
  /-- The size while visible. -/
  size : Float
  deriving DecidableEq

namespace Turtle

/-- At the origin, looking along the x axis, with the pen down. -/
def new (config : Config) : Turtle where
  position := .zero
  orientation := .identity
  penDown := true
  color := config.color
  thickness := config.thickness
  visible := true
  size := config.glyphSize

def pose (t : Turtle) : Pose where
  position := t.position
  orientation := t.orientation
  color := t.color
  size := if t.visible then t.size else 0

/-- The direction the turtle looks in. -/
def heading (t : Turtle) : Vector3 :=
  t.orientation.rotate .unitX

/-- The point at a distance straight ahead. -/
def ahead (t : Turtle) (distance : Float) : Vector3 :=
  t.position + t.heading.scale distance

/-! ## Turning -/

/-- Turns about one of the turtle's own axes. -/
def turn (t : Turtle) (axis : Vector3) (degrees : Float) : Turtle :=
  { t with orientation := t.orientation.compose (.ofAxisAngle axis degrees) }

/-- Turns left. -/
def yaw (t : Turtle) (degrees : Float) : Turtle :=
  t.turn .unitZ degrees

/-- Lowers the nose. -/
def pitch (t : Turtle) (degrees : Float) : Turtle :=
  t.turn .unitY degrees

/-- Turns about the heading. -/
def roll (t : Turtle) (degrees : Float) : Turtle :=
  t.turn .unitX degrees

/-- Looks at a point, without roll. -/
def face (t : Turtle) (target : Vector3) : Turtle :=
  let d := target - t.position
  let yaw := Number.degreesOfRadians (Float.atan2 d.y d.x)
  let pitch := -Number.degreesOfRadians (Float.atan2 d.z (Number.hypotenuse d.x d.y))
  { t with orientation := (Orientation.ofAxisAngle .unitZ yaw).compose (.ofAxisAngle .unitY pitch) }

end Turtle

structure Scene where
  turtle : Turtle
  timeline : Timeline

namespace Scene

def new (config : Config) : Scene :=
  ⟨.new config, .new⟩

/-- The path of a first move. -/
def segment (turtle : Turtle) (target : Vector3) : Path where
  points := #[turtle.position, target]
  color := turtle.color
  thickness := turtle.thickness
  filled := false

/-- Draws a line to a point. -/
def drawTo (s : Scene) (target : Vector3) : Timeline :=
  match s.timeline.addPoint? target with
  | some timeline => timeline
  | none => s.timeline.startPath (segment s.turtle target)

/-- Moves to a point, drawing if the pen is down. -/
def moveTo (s : Scene) (target : Vector3) : Scene where
  turtle := { s.turtle with position := target }
  timeline := if s.turtle.penDown then s.drawTo target else s.timeline.closePath

def forward (s : Scene) (distance : Float) : Scene :=
  s.moveTo (s.turtle.ahead distance)

/-- Moves to a point without drawing and leaves the pen as it is. -/
def carryTo (s : Scene) (target : Vector3) : Scene where
  turtle := { s.turtle with position := target }
  timeline := s.timeline.closePath

/-- Moves to a point without drawing, then puts the pen down. -/
def jumpTo (s : Scene) (target : Vector3) : Scene :=
  let s := s.carryTo target
  { s with turtle := { s.turtle with penDown := true } }

def jump (s : Scene) (distance : Float) : Scene :=
  s.jumpTo (s.turtle.ahead distance)

/-- Back to the start, without drawing. -/
def home (s : Scene) : Scene :=
  let s := s.carryTo .zero
  { s with turtle := { s.turtle with orientation := .identity } }

/-- Changes the turtle alone. -/
def mapTurtle (s : Scene) (f : Turtle → Turtle) : Scene :=
  { s with turtle := f s.turtle }

/-- Ends the open path. -/
def closePath (s : Scene) : Scene :=
  { s with timeline := s.timeline.closePath }

/-- Ends the open path and writes a primitive. -/
def place (s : Scene) (p : Primitive) : Scene :=
  { s with timeline := s.timeline.closePath.push p }

/-- Fills the open path, if there is one, and ends it. -/
def fill (s : Scene) : Scene :=
  { s with timeline := (s.timeline.fillOpen?.getD s.timeline).closePath }

/-- Writes the turtle as it is now, then lets time pass. -/
def wait (s : Scene) (ms : Time) : Scene :=
  { s with timeline := (s.timeline.push (.head s.turtle.pose)).advance ms }

/-- Ends the run. -/
def finish (s : Scene) : Scene :=
  { s with timeline := s.timeline.finish s.turtle.pose }

end Scene
end TurtleGraphics
