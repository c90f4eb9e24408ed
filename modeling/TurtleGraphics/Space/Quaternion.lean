import TurtleGraphics.Number.Arithmetic
import TurtleGraphics.Space.Vector

/-!
# TurtleGraphics.Space.Quaternion

Quaternions, over any scalars, and the orientations among them. Product, conjugate and the rotation of
a vector are plain algebra. An `Orientation` is a quaternion of doubles that is kept at unit length:
products are normalised, and components that are nearly zero become zero, so that repeated turns do
not drift.
-/

namespace TurtleGraphics

structure Quaternion (α : Type) where
  w : α
  x : α
  y : α
  z : α
  deriving DecidableEq, Repr

namespace Quaternion

variable {α : Type}

/-- The Hamilton product. -/
def hamilton [Add α] [Sub α] [Mul α] (a b : Quaternion α) : Quaternion α where
  w := a.w * b.w - a.x * b.x - a.y * b.y - a.z * b.z
  x := a.w * b.x + a.x * b.w + a.y * b.z - a.z * b.y
  y := a.w * b.y - a.x * b.z + a.y * b.w + a.z * b.x
  z := a.w * b.z + a.x * b.y - a.y * b.x + a.z * b.w

def conjugate [Neg α] (q : Quaternion α) : Quaternion α :=
  ⟨q.w, -q.x, -q.y, -q.z⟩

def normSq [Add α] [Mul α] (q : Quaternion α) : α :=
  q.w * q.w + q.x * q.x + q.y * q.y + q.z * q.z

/-- A vector as a quaternion without scalar part. -/
def ofVector [OfNat α 0] (v : Vec3 α) : Quaternion α :=
  ⟨0, v.x, v.y, v.z⟩

def vectorPart (q : Quaternion α) : Vec3 α :=
  ⟨q.x, q.y, q.z⟩

/-- The product `q v q*`. -/
def conjugation [Add α] [Sub α] [Mul α] [Neg α] [OfNat α 0] (q : Quaternion α) (v : Vec3 α) :
    Quaternion α :=
  (q.hamilton (ofVector v)).hamilton q.conjugate

/-- The rotation of a vector: the vector part of `q v q*`. -/
def sandwich [Add α] [Sub α] [Mul α] [Neg α] [OfNat α 0] (q : Quaternion α) (v : Vec3 α) :
    Vec3 α :=
  (q.conjugation v).vectorPart

end Quaternion

abbrev Orientation := Quaternion Float

namespace Orientation

def identity : Orientation := ⟨1, 0, 0, 0⟩

def isNearZero (x : Float) : Bool :=
  x.abs < Number.epsilon

/-- Makes zero of what is nearly zero. -/
def flushZero (x : Float) : Float :=
  if isNearZero x then 0 else x

/-- The quaternion scaled to unit length; the identity if it has no usable length. -/
def normalize (q : Orientation) : Orientation :=
  let len := q.normSq.sqrt
  if len < Number.epsilon || !len.isFinite then identity
  else ⟨flushZero (q.w / len), flushZero (q.x / len), flushZero (q.y / len), flushZero (q.z / len)⟩

/-- The turn by an angle in degrees about an axis of any length. Whole turns are taken off first; a
vanishing angle or axis gives the identity. -/
def ofAxisAngle (axis : Vector3) (degrees : Float) : Orientation :=
  let angle := Number.remainder degrees 360
  let len := axis.length
  if isNearZero angle || len < Number.epsilon || !angle.isFinite then identity
  else
    let half := Number.radiansOfDegrees angle / 2
    let s := half.sin
    normalize ⟨half.cos, axis.x / len * s, axis.y / len * s, axis.z / len * s⟩

def isIdentity (q : Orientation) : Bool :=
  isNearZero (q.w.abs - 1) && isNearZero q.x && isNearZero q.y && isNearZero q.z

/-- The turn `b` made in the frame of `a`. -/
def compose (a b : Orientation) : Orientation :=
  normalize (a.hamilton b)

/-- The image of a vector. The identity leaves it exactly as it is. -/
def rotate (q : Orientation) (v : Vector3) : Vector3 :=
  if q.isIdentity then v
  else
    let r := q.sandwich v
    ⟨flushZero r.x, flushZero r.y, flushZero r.z⟩

/-- A plane affine map: the images of the unit vectors `(a, b)` and `(c, d)`, and the shift `(e, f)`. -/
structure PlaneMap where
  a : Float
  b : Float
  c : Float
  d : Float
  e : Float
  f : Float
  deriving DecidableEq, Repr

/-- The images of the unit vectors, projected on the drawing plane. -/
def planeMap (q : Orientation) : PlaneMap :=
  let x := q.rotate Vector3.unitX
  let y := q.rotate Vector3.unitY
  ⟨x.x, x.y, y.x, y.y, 0, 0⟩

end Orientation
end TurtleGraphics
