import Std.Data.TreeMap
import TurtleGraphics.Picture.Primitive

/-!
# TurtleGraphics.Picture.Timeline

A drawing in time. Primitives are written at a cursor in virtual milliseconds that only moves forward;
all primitives written at one time form a bucket. One path at most is open: points can be added to it
until it is closed, which every move of the cursor does.
-/

namespace TurtleGraphics

/-- Virtual milliseconds. -/
abbrev Time := UInt64

/-- The sum of two times, or the last time if the sum is beyond it. -/
def Time.plus (a b : Time) : Time :=
  if a.toNat + b.toNat < UInt64.size then a + b else UInt64.ofNat (UInt64.size - 1)

/-- The place of a primitive: its bucket and its index there. -/
structure Place where
  time : Time
  index : Nat
  deriving DecidableEq, Repr

structure Timeline where
  buckets : Std.TreeMap Time (Array Primitive)
  /-- The write cursor. -/
  now : Time
  /-- The latest time reached. -/
  endTime : Time
  openPath : Option Place
  /-- The pose at the end of the last run. -/
  finalPose : Option Pose

namespace Timeline

def new : Timeline where
  buckets := (∅ : Std.TreeMap Time (Array Primitive)).insert 0 #[]
  now := 0
  endTime := 0
  openPath := none
  finalPose := none

/-! ## Writing -/

/-- The primitives written at a time. -/
def bucketAt (t : Timeline) (time : Time) : Array Primitive :=
  t.buckets.getD time #[]

/-- Changes the bucket at the write cursor, which need not exist. -/
def updateNow (t : Timeline) (f : Array Primitive → Array Primitive) : Timeline :=
  { t with buckets := t.buckets.alter t.now fun bucket => some (f (bucket.getD #[])) }

def push (t : Timeline) (p : Primitive) : Timeline :=
  t.updateNow (·.push p)

/-- Writes a path and keeps it open. -/
def startPath (t : Timeline) (p : Path) : Timeline :=
  let place : Place := ⟨t.now, (t.bucketAt t.now).size⟩
  { t.push (.path p) with openPath := some place }

/-- The open path. -/
def openPath? (t : Timeline) : Option Path :=
  match t.openPath with
  | none => none
  | some place => (t.bucketAt place.time)[place.index]?.bind Primitive.path?

/-- Changes the open path, if there is one. -/
def modifyOpen? (t : Timeline) (f : Path → Path) : Option Timeline :=
  match t.openPath with
  | none => none
  | some place =>
    if t.openPath?.isSome then
      some { t with
        buckets := t.buckets.modify place.time (·.modify place.index (Primitive.mapPath f)) }
    else none

/-- Adds a point to the open path. -/
def addPoint? (t : Timeline) (point : Vector3) : Option Timeline :=
  t.modifyOpen? (Path.extend point)

/-- Fills the open path. -/
def fillOpen? (t : Timeline) : Option Timeline :=
  t.modifyOpen? Path.fill

def closePath (t : Timeline) : Timeline :=
  { t with openPath := none }

def isPathOpen (t : Timeline) : Bool :=
  t.openPath.isSome

/-- Moves the cursor forward. There is a bucket where it arrives, even if nothing follows. -/
def advance (t : Timeline) (ms : Time) : Timeline :=
  let now := t.now.plus ms
  { t with openPath := none, now := now, endTime := max t.endTime now }.updateNow id

/-- Ends a run with the pose the turtle has then. -/
def finish (t : Timeline) (pose : Pose) : Timeline :=
  { t with openPath := none, finalPose := some pose }

/-! ## Reading -/

/-- The buckets in time order. -/
def toList (t : Timeline) : List (Time × Array Primitive) :=
  t.buckets.toList

/-- The buckets with times in `[start, stop)`, in time order. -/
def range (t : Timeline) (start stop : Time) : List (Time × Array Primitive) :=
  t.toList.filter fun (time, _) => start ≤ time && time < stop

/-- All primitives in the order they were written. -/
def primitives (t : Timeline) : List Primitive :=
  t.toList.flatMap fun (_, bucket) => bucket.toList

def paths (t : Timeline) : List Path :=
  t.primitives.filterMap Primitive.path?

def length (t : Timeline) : Nat :=
  t.primitives.length

end Timeline
end TurtleGraphics
