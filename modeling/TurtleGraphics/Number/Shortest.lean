import TurtleGraphics.Number.Binary

/-!
# TurtleGraphics.Number.Shortest

The shortest decimal that reads back to a given double. The reals that round to a double form an
interval around it, whose ends belong to it exactly when the mantissa is even. On each decimal grid,
from coarse to fine, only the two neighbours of the double need a test: if any point of the grid lies
in the interval then so does one of them. The first grid with a hit gives the digits; of two hits the
nearer is taken, the upper one at a tie. All comparisons are exact.
-/

namespace TurtleGraphics
namespace Number

/-- The decimal `digits * 10 ^ place`. -/
structure Decimal where
  digits : Nat
  place : Int
  deriving DecidableEq, Repr

/-- The interval of reals that round to a double, in quarters of its last place: the double itself is
`middle`. -/
structure Interval where
  low : Nat
  middle : Nat
  high : Nat
  closed : Bool
  exponent : Int
  deriving DecidableEq, Repr

/-- Below a power of two the neighbour is only half as far, except at the end of the subnormals. -/
def Magnitude.interval (m : Magnitude) : Interval :=
  let belowGap := if m.mantissa = fractionSpan ∧ -1074 < m.exponent then 1 else 2
  { low := 4 * m.mantissa - belowGap
    middle := 4 * m.mantissa
    high := 4 * m.mantissa + 2
    closed := m.mantissa % 2 == 0
    exponent := m.exponent - 2 }

namespace Interval

/-- The quarters of the interval against the grid of `10 ^ place`: `k` steps of the grid equal `n`
quarters when `k * step = n * quarter`. -/
structure Scale where
  quarter : Nat
  step : Nat

def scaleAt (i : Interval) (place : Int) : Scale :=
  { quarter := Nat.pow 2 i.exponent.toNat * Nat.pow 10 (-place).toNat
    step := Nat.pow 2 (-i.exponent).toNat * Nat.pow 10 place.toNat }

/-- Whether `k` steps of the grid lie in the interval. -/
def holds (i : Interval) (s : Scale) (k : Nat) : Bool :=
  if i.closed then i.low * s.quarter ≤ k * s.step && k * s.step ≤ i.high * s.quarter
  else i.low * s.quarter < k * s.step && k * s.step < i.high * s.quarter

/-- The point of the grid of `10 ^ place` in the interval that is nearest to its middle. -/
def hit? (i : Interval) (place : Int) : Option Nat :=
  let s := i.scaleAt place
  let below := i.middle * s.quarter / s.step
  match i.holds s below, i.holds s (below + 1) with
  | true, true =>
    some (if 2 * (i.middle * s.quarter) < (2 * below + 1) * s.step then below else below + 1)
  | true, false => some below
  | false, true => some (below + 1)
  | false, false => none

/-- The first hit on the `count` grids from `10 ^ place` downward. -/
def search (i : Interval) : Nat → Int → Option Decimal
  | 0, _ => none
  | count + 1, place =>
    match i.hit? place with
    | some k => some ⟨k, place⟩
    | none => search i count (place - 1)

end Interval

/-- A power of ten above the magnitude: `30103 / 100000` is above the decimal logarithm of 2. -/
def Magnitude.topPlace (m : Magnitude) : Int :=
  (m.exponent + m.mantissa.log2 + 1) * 30103 / 100000 + 1

/-- The shortest decimal that rounds to the magnitude of a positive finite double. Seventeen digits
always suffice and the top place is at most two above the first of them, so the search does not run
out. -/
def shortest (m : Magnitude) : Decimal :=
  (m.interval.search 24 m.topPlace).getD ⟨0, 0⟩

end Number
end TurtleGraphics
