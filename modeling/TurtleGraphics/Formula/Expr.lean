import TurtleGraphics.Formula.Symbol

/-!
# TurtleGraphics.Formula.Expr

Formulas as trees.
-/

namespace TurtleGraphics
namespace Formula

inductive Expr where
  | num (value : Float)
  | var (name : String)
  | binary (op : BinaryOp) (left right : Expr)
  | unary (op : UnaryOp) (operand : Expr)
  | call (name : String) (args : List Expr)

end Formula
end TurtleGraphics
