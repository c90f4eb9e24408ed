/-!
# TurtleGraphics.Space.Vector

Vectors in space, over any scalars.
-/

namespace TurtleGraphics

structure Vec3 (α : Type) where
  x : α
  y : α
  z : α
  deriving DecidableEq, Repr

namespace Vec3

variable {α : Type}

instance [Add α] : Add (Vec3 α) :=
  ⟨fun a b => ⟨a.x + b.x, a.y + b.y, a.z + b.z⟩⟩

instance [Sub α] : Sub (Vec3 α) :=
  ⟨fun a b => ⟨a.x - b.x, a.y - b.y, a.z - b.z⟩⟩

/-- Multiplies every component. -/
def scale [Mul α] (v : Vec3 α) (k : α) : Vec3 α :=
  ⟨v.x * k, v.y * k, v.z * k⟩

def normSq [Add α] [Mul α] (v : Vec3 α) : α :=
  v.x * v.x + v.y * v.y + v.z * v.z

end Vec3

/-- A point or direction of the drawing. -/
abbrev Vector3 := Vec3 Float

namespace Vector3

def zero : Vector3 := ⟨0, 0, 0⟩

def unitX : Vector3 := ⟨1, 0, 0⟩

def unitY : Vector3 := ⟨0, 1, 0⟩

def unitZ : Vector3 := ⟨0, 0, 1⟩

def length (v : Vector3) : Float :=
  v.normSq.sqrt

end Vector3
end TurtleGraphics
