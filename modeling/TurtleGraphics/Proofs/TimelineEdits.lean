import TurtleGraphics.Proofs.TimelineLog

/-!
# TurtleGraphics.Proofs.TimelineEdits

Timelines as they come about. An `Edit` is one operation on a timeline and `Timeline.editAll` carries out
several; a timeline that is made in this way from the new one has what every edit preserves
(`Timeline.editAll_invariant`).
-/

namespace TurtleGraphics
namespace Timeline

inductive Edit where
  | push (p : Primitive)
  | startPath (p : Path)
  | addPoint (point : Vector3)
  | fill
  | closePath
  | advance (ms : Time)
  | finish (pose : Pose)
  | clear

/-- Without an open path there is nothing to add a point to and nothing to fill. -/
def edit (t : Timeline) : Edit → Timeline
  | .push p => t.push p
  | .startPath p => t.startPath p
  | .addPoint point => (t.addPoint? point).getD t
  | .fill => t.fillOpen?.getD t
  | .closePath => t.closePath
  | .advance ms => t.advance ms
  | .finish pose => t.finish pose
  | .clear => new

def editAll (t : Timeline) (edits : List Edit) : Timeline :=
  edits.foldl edit t

/-- What every edit preserves holds after any number of edits. -/
theorem editAll_invariant {P : Timeline → Prop} (hedit : ∀ {t} (e : Edit), P t → P (t.edit e))
    {t : Timeline} (ht : P t) (edits : List Edit) : P (t.editAll edits) := by
  induction edits generalizing t with
  | nil => exact ht
  | cons e edits ih => exact ih (hedit e ht)

end Timeline
end TurtleGraphics
