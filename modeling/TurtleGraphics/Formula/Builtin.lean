import TurtleGraphics.Number.Arithmetic

/-!
# TurtleGraphics.Formula.Builtin

The functions and constants that every formula knows.
-/

namespace TurtleGraphics
namespace Formula

inductive Builtin where
  | sin
  | cos
  | tan
  | asin
  | acos
  | atan
  | sqrt
  | log
  | exp
  | abs
  | floor
  | ceil
  | round
  | sign
  | min
  | max
  | atan2
  | pow
  deriving DecidableEq, Repr

namespace Builtin

def ofName? : String → Option Builtin
  | "sin" => some sin
  | "cos" => some cos
  | "tan" => some tan
  | "asin" => some asin
  | "acos" => some acos
  | "atan" => some atan
  | "sqrt" => some sqrt
  | "log" => some log
  | "exp" => some exp
  | "abs" => some abs
  | "floor" => some floor
  | "ceil" => some ceil
  | "round" => some round
  | "sign" => some sign
  | "min" => some min
  | "max" => some max
  | "atan2" => some atan2
  | "pow" => some pow
  | _ => none

def arity : Builtin → Nat
  | min | max | atan2 | pow => 2
  | _ => 1

/-- The sign as -1, 0 or 1; both zeros give 0, and a NaN stays one. -/
def signOf (x : Float) : Float :=
  if x == 0 then 0
  else if x.isNaN then x
  else if x < 0 then -1 else 1

/-- The value at an argument list of the right length. -/
def value? : Builtin → List Float → Option Float
  | sin, [a] => some a.sin
  | cos, [a] => some a.cos
  | tan, [a] => some a.tan
  | asin, [a] => some a.asin
  | acos, [a] => some a.acos
  | atan, [a] => some a.atan
  | sqrt, [a] => some a.sqrt
  | log, [a] => some a.log
  | exp, [a] => some a.exp
  | abs, [a] => some a.abs
  | floor, [a] => some a.floor
  | ceil, [a] => some a.ceil
  | round, [a] => some a.round
  | sign, [a] => some (signOf a)
  | min, [a, b] => some (Number.lesser a b)
  | max, [a, b] => some (Number.greater a b)
  | atan2, [a, b] => some (Float.atan2 a b)
  | pow, [a, b] => some (Float.pow a b)
  | _, _ => none

end Builtin

def constant? : String → Option Float
  | "pi" => some Number.pi
  | "tau" => some 6.283185307179586
  | "e" => some 2.718281828459045
  | _ => none

end Formula
end TurtleGraphics
