/-!
# TurtleGraphics.Number.Binary

Finite doubles as exact binary fractions. A `Magnitude` is `mantissa * 2 ^ exponent`; `magnitude`
takes the absolute value of a double apart, and `Magnitude.toFloat` rounds any magnitude to the
nearest double, ties to the even mantissa. With the two, an operation on doubles can be computed
exactly and rounded once.
-/

namespace TurtleGraphics
namespace Number

/-- The exact non-negative number `mantissa * 2 ^ exponent`. -/
structure Magnitude where
  mantissa : Nat
  exponent : Int
  deriving DecidableEq, Repr

/-- The fraction field of a double has 52 places. -/
def fractionSpan : Nat := 0x10000000000000

/-- The exponent field of a double has 11 places. -/
def exponentSpan : Nat := 0x800

/-- The absolute value of a finite double. -/
def magnitude (x : Float) : Magnitude :=
  let bits := x.toBits.toNat
  let fraction := bits % fractionSpan
  let biased := bits / fractionSpan % exponentSpan
  if biased = 0 then ⟨fraction, -1074⟩ else ⟨fractionSpan + fraction, (biased : Int) - 1075⟩

/-- The sign bit, which negative zero has too. -/
def signBit (x : Float) : Bool :=
  x.toBits >>> 63 == 1

def infinity : Float := Float.ofBits 0x7FF0000000000000

def notANumber : Float := Float.ofBits 0x7FF8000000000000

/-- Gives a non-negative double the sign bit. -/
def withSign (negative : Bool) (x : Float) : Float :=
  if negative then -x else x

/-- The quotient `n / d` rounded to the nearest natural number, ties to even. -/
def divNearest (n d : Nat) : Nat :=
  let q := n / d
  let r := n % d
  if 2 * r < d then q
  else if d < 2 * r then q + 1
  else if q % 2 = 0 then q else q + 1

namespace Magnitude

/-- The mantissa written at an exponent `q` that is not above the magnitude's own. -/
def alignedAt (m : Magnitude) (q : Int) : Nat :=
  m.mantissa <<< (m.exponent - q).toNat

/-- The nearest double, ties to even; what is too large becomes infinite.

`last` is the exponent of the last place kept. The fields are joined by a plain sum, so a significand
that rounding made too long carries into the exponent. -/
def toFloat (m : Magnitude) : Float :=
  if m.mantissa = 0 then Float.ofBits 0
  else
    let last := max (m.exponent + m.mantissa.log2 - 52) (-1074)
    let significand :=
      if last ≤ m.exponent then m.alignedAt last
      else divNearest m.mantissa (Nat.pow 2 (last - m.exponent).toNat)
    let bits := (last + 1074).toNat * fractionSpan + significand
    if bits < 0x7FF0000000000000 then Float.ofBits (UInt64.ofNat bits) else infinity

end Magnitude
end Number
end TurtleGraphics
