import Mathlib.Algebra.Quaternion
import Mathlib.Algebra.Ring.Identities
import Mathlib.Tactic.Ring
import TurtleGraphics.Space.Quaternion

/-!
# TurtleGraphics.Proofs.Rotations

Turns as algebra, over any commutative ring. The Hamilton product and the conjugate are those of the
quaternion algebra (`toAlgebra_hamilton`, `toAlgebra_conjugate`), so the product is associative and the
conjugate turns it round; the norm of a product is the product of the norms. A product `q v q*` has no
scalar part, so nothing is lost when only its vector part is kept (`ofVector_sandwich`). Hence a turn
made in the frame of another one moves a vector as the two turns do one after the other.
-/

namespace TurtleGraphics
namespace Quaternion

variable {R : Type} [CommRing R]

/-! ## The quaternion algebra -/

/-- The quaternion as an element of the quaternion algebra in which `i` and `j` square to -1. -/
def toAlgebra (q : Quaternion R) : QuaternionAlgebra R (-1) 0 (-1) :=
  ⟨q.w, q.x, q.y, q.z⟩

theorem toAlgebra_inj {a b : Quaternion R} : a.toAlgebra = b.toAlgebra ↔ a = b := by
  constructor
  · intro h
    cases a
    cases b
    cases h
    rfl
  · rintro rfl
    rfl

theorem toAlgebra_hamilton (a b : Quaternion R) :
    (a.hamilton b).toAlgebra = a.toAlgebra * b.toAlgebra := by
  ext <;> simp [toAlgebra, hamilton] <;> ring

theorem toAlgebra_conjugate (q : Quaternion R) : q.conjugate.toAlgebra = star q.toAlgebra := by
  ext <;> simp [toAlgebra, conjugate]

theorem hamilton_assoc (a b c : Quaternion R) :
    (a.hamilton b).hamilton c = a.hamilton (b.hamilton c) := by
  simp only [← toAlgebra_inj, toAlgebra_hamilton, mul_assoc]

/-- The conjugate of a product is the product of the conjugates, the other way round. -/
theorem conjugate_hamilton (a b : Quaternion R) :
    (a.hamilton b).conjugate = b.conjugate.hamilton a.conjugate := by
  simp only [← toAlgebra_inj, toAlgebra_hamilton, toAlgebra_conjugate, star_mul]

/-! ## Norms -/

theorem normSq_hamilton (a b : Quaternion R) : (a.hamilton b).normSq = a.normSq * b.normSq := by
  simp only [normSq, hamilton, ← sq]
  exact sum_four_sq_mul_sum_four_sq.symm

theorem normSq_conjugate (q : Quaternion R) : q.conjugate.normSq = q.normSq := by
  simp [normSq, conjugate]

theorem normSq_ofVector (v : Vec3 R) : (ofVector v).normSq = v.normSq := by
  simp [normSq, ofVector, Vec3.normSq]

theorem normSq_conjugation (q : Quaternion R) (v : Vec3 R) :
    (q.conjugation v).normSq = q.normSq ^ 2 * v.normSq := by
  rw [conjugation, normSq_hamilton, normSq_hamilton, normSq_conjugate, normSq_ofVector]
  ring

/-! ## Vectors -/

/-- The products that make up the scalar part of `q v q*` cancel in pairs. -/
theorem conjugation_w (q : Quaternion R) (v : Vec3 R) : (q.conjugation v).w = 0 := by
  simp only [conjugation, hamilton, conjugate, ofVector]
  ring

/-- The rotated vector is all of `q v q*`. -/
theorem ofVector_sandwich (q : Quaternion R) (v : Vec3 R) :
    ofVector (q.sandwich v) = q.conjugation v := by
  rw [sandwich, ofVector, ← conjugation_w q v]
  rfl

theorem conjugation_hamilton (a b : Quaternion R) (v : Vec3 R) :
    (a.hamilton b).conjugation v = a.conjugation (b.sandwich v) := by
  calc (a.hamilton b).conjugation v
      = (a.hamilton (b.conjugation v)).hamilton a.conjugate := by
        simp only [conjugation, conjugate_hamilton, hamilton_assoc]
    _ = a.conjugation (b.sandwich v) := by
        rw [← ofVector_sandwich b v, conjugation]

/-- Products of quaternions group in any way, a product rotates as its factors do one after the other,
what is dropped of `q v q*` is zero, and a rotation scales all lengths alike. -/
theorem sandwich_composes (a b c : Quaternion R) (v : Vec3 R) :
    (a.hamilton b).hamilton c = a.hamilton (b.hamilton c) ∧
      (a.hamilton b).sandwich v = a.sandwich (b.sandwich v) ∧
      (a.conjugation v).w = 0 ∧
      (a.sandwich v).normSq = a.normSq ^ 2 * v.normSq := by
  refine ⟨hamilton_assoc a b c, ?_, conjugation_w a v, ?_⟩
  · rw [sandwich, conjugation_hamilton, ← sandwich]
  · rw [← normSq_ofVector, ofVector_sandwich, normSq_conjugation]

end Quaternion
end TurtleGraphics
