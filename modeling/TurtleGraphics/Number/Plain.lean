import TurtleGraphics.Number.Shortest

/-!
# TurtleGraphics.Number.Plain

The text of a number. Numbers are written in plain positional notation with the shortest digits that
read back, never with an exponent and without a fraction of zeros; negative zero keeps its sign. In
drawn text, what is smaller than `1e-10` is written as 0.
-/

namespace TurtleGraphics
namespace Number

def zeros (n : Nat) : List Char :=
  List.replicate n '0'

/-- Positional notation of a decimal. -/
def Decimal.plain (d : Decimal) : List Char :=
  let digits := Nat.toDigits 10 d.digits
  if 0 ≤ d.place then digits ++ zeros d.place.toNat
  else
    let places := (-d.place).toNat
    if places < digits.length then
      digits.take (digits.length - places) ++ '.' :: digits.drop (digits.length - places)
    else '0' :: '.' :: (zeros (places - digits.length) ++ digits)

/-- The text of a number's absolute value. -/
def plainMagnitude (x : Float) : List Char :=
  if x.isInf then ['i', 'n', 'f']
  else if x == 0 then ['0']
  else (shortest (magnitude x)).plain

/-- The text of a number: shortest digits in positional notation. -/
def plain (x : Float) : String :=
  if x.isNaN then "NaN"
  else String.ofList (if signBit x then '-' :: plainMagnitude x else plainMagnitude x)

/-- The text of a number inside drawn text: what is nearly zero is written as 0. -/
def label (x : Float) : String :=
  if x.abs < 1e-10 then "0" else plain x

/-! ## Reading -/

/-- The number that a list of decimal digits spells. -/
def natOfDigits (cs : List Char) : Nat :=
  cs.foldl (fun n c => 10 * n + (c.toNat - '0'.toNat)) 0

/-- The double nearest to a decimal written as digits, a point and digits; either side may be empty,
and the point may be missing. -/
def ofDecimal (cs : List Char) : Float :=
  let whole := cs.takeWhile Char.isDigit
  let fraction := (cs.dropWhile Char.isDigit).drop 1
  Float.ofScientific (natOfDigits (whole ++ fraction)) true fraction.length

/-- Reads back what `plain` writes. -/
def ofPlain? (s : String) : Option Float :=
  match s.toList with
  | ['N', 'a', 'N'] => some notANumber
  | '-' :: cs => (unsigned? cs).map (withSign true)
  | cs => unsigned? cs
where
  unsigned? (cs : List Char) : Option Float :=
    if cs = ['i', 'n', 'f'] then some infinity
    else if (cs.filter (· != '.')).all Char.isDigit && cs.count '.' ≤ 1 && cs != [] then
      some (ofDecimal cs)
    else none

end Number
end TurtleGraphics
