import TurtleGraphics.Number.Binary

/-!
# TurtleGraphics.Number.Arithmetic

Operations on doubles beyond the four basic ones: the remainder of truncated division, the
remainder wrapped into a period, the length of a hypotenuse, the change between degrees and radians,
and the minimum and maximum that prefer a number to a NaN. Remainder and hypotenuse are computed on
exact magnitudes and rounded once.
-/

namespace TurtleGraphics
namespace Number

def pi : Float := 3.141592653589793

/-- The distance from 1 to the next double. -/
def epsilon : Float := Float.ofBits 0x3CB0000000000000

/-- `x - y * n` for the integer `n` that is `x / y` cut toward zero. It has the sign of `x` and is
exact; there is none of an infinite `x` or by a zero `y`. -/
def remainder (x y : Float) : Float :=
  if x.isNaN || y.isNaN || x.isInf || y == 0 then notANumber
  else if y.isInf then x
  else
    let a := magnitude x
    let b := magnitude y
    let q := min a.exponent b.exponent
    withSign (signBit x) (Magnitude.toFloat ⟨a.alignedAt q % b.alignedAt q, q⟩)

/-- The remainder made non-negative by one more period. -/
def wrap (x period : Float) : Float :=
  let r := remainder x period
  if r < 0 then r + period.abs else r

/-- Decides the lowest `k` bits of the integer square root of `n`, the higher ones being `root`. -/
def sqrtBits (n : Nat) : Nat → Nat → Nat
  | 0, root => root
  | k + 1, root =>
    let raised := root + Nat.pow 2 k
    if raised * raised ≤ n then sqrtBits n k raised else sqrtBits n k root

/-- The integer square root. -/
def sqrtFloor (n : Nat) : Nat :=
  sqrtBits n (n.log2 / 2 + 1) 0

/-- The length of the hypotenuse over the legs `x` and `y`, rounded once. The root is taken with 64
places more than the squares have, and a last place says whether anything was cut off. -/
def hypotenuse (x y : Float) : Float :=
  if x.isInf || y.isInf then infinity
  else if x.isNaN || y.isNaN then notANumber
  else
    let q := min (magnitude x).exponent (magnitude y).exponent
    let a := (magnitude x).alignedAt q
    let b := (magnitude y).alignedAt q
    let square := (a * a + b * b) <<< 128
    let root := sqrtFloor square
    Magnitude.toFloat ⟨2 * root + (if root * root = square then 0 else 1), q - 65⟩

def radiansOfDegrees (x : Float) : Float :=
  x * (pi / 180)

def degreesOfRadians (x : Float) : Float :=
  x * (180 / pi)

/-- The lesser of two numbers; beside a NaN the other operand. -/
def lesser (a b : Float) : Float :=
  if a.isNaN then b else if b.isNaN then a else if b < a then b else a

/-- The greater of two numbers; beside a NaN the other operand. -/
def greater (a b : Float) : Float :=
  if a.isNaN then b else if b.isNaN then a else if a < b then b else a

end Number
end TurtleGraphics
