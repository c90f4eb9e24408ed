import TurtleGraphics.Picture.Timeline

/-!
# TurtleGraphics.Picture.Player

Playing a timeline back. A player remembers up to which time it has drawn; a tick draws the buckets
from there to the time of the tick. The first tick past the end also shows the final pose, and the
tick after that one takes a snapshot.
-/

namespace TurtleGraphics

/-- How far playing has come. -/
inductive Player.Phase where
  | start
  /-- All was drawn and the final pose is shown. -/
  | reaching
  /-- A tick after that; the picture is complete. -/
  | reached
  deriving DecidableEq, Repr

/-- What a canvas is told. -/
inductive Event where
  | draw (primitive : Primitive)
  | pose (pose : Pose)
  | snapshot
  deriving DecidableEq

structure Player where
  /-- All buckets before this time are drawn. -/
  drawnUntil : Time
  phase : Player.Phase
  deriving DecidableEq, Repr

/-- What a tick does: the player after it, what it draws, and what it announces afterwards. -/
structure Tick where
  player : Player
  drawn : List Primitive
  notice : Option Event

/-- All that the canvas is told, in order. -/
def Tick.events (t : Tick) : List Event :=
  t.drawn.map .draw ++ t.notice.toList

namespace Player

def new : Player := ⟨0, .start⟩

/-- The phase after a tick at a time, and the notice on entering it. -/
def nextPhase (p : Player) (timeline : Timeline) (time : Time) : Phase × Option Event :=
  match p.phase with
  | .start =>
    if timeline.endTime < time then (.reaching, timeline.finalPose.map .pose) else (.start, none)
  | .reaching => (.reached, some .snapshot)
  | .reached => (.reached, none)

/-- Draws up to a time. A time that lies before the last one counts as that one. -/
def tick (p : Player) (timeline : Timeline) (time : Time) : Tick :=
  let time := max time p.drawnUntil
  let (phase, notice) := p.nextPhase timeline time
  { player := ⟨time, phase⟩
    drawn := (timeline.range p.drawnUntil time).flatMap fun (_, bucket) => bucket.toList
    notice := notice }

end Player
end TurtleGraphics
