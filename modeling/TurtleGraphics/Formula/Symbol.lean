/-!
# TurtleGraphics.Formula.Symbol

The operator symbols of formulas and the brackets. A symbol is a spelling; which operator it stands
for depends on where it stands, so `binary?` and `unary?` read it in infix and in front position.
Binary operators bind by level, from 1 (loosest) to 9.
-/

namespace TurtleGraphics
namespace Formula

inductive BinaryOp where
  | or
  | and
  | bitOr
  | bitAnd
  | eq
  | notEq
  | lt
  | ltEq
  | gt
  | gtEq
  | add
  | sub
  | mul
  | div
  | intDiv
  | pow
  deriving DecidableEq, Repr

inductive UnaryOp where
  | plus
  | neg
  | not
  deriving DecidableEq, Repr

/-- The binding level, loosest first. -/
def BinaryOp.level : BinaryOp → Nat
  | .or => 1
  | .and => 2
  | .bitOr => 3
  | .bitAnd => 4
  | .eq | .notEq => 5
  | .lt | .ltEq | .gt | .gtEq => 6
  | .add | .sub => 7
  | .mul | .div | .intDiv => 8
  | .pow => 9

/-- Powers group to the right, all else to the left. -/
def BinaryOp.groupsRight (op : BinaryOp) : Bool :=
  op = .pow

/-- The least level an operator must have to stand in the right operand. -/
def BinaryOp.rightLevel (op : BinaryOp) : Nat :=
  if op.groupsRight then op.level else op.level + 1

inductive Symbol where
  | tripleEqual
  | bangDoubleEqual
  | doubleAmp
  | doubleBar
  | greaterEqual
  | lessEqual
  | doubleEqual
  | bangEqual
  | doubleSlash
  | plus
  | minus
  | star
  | slash
  | caret
  | greater
  | less
  | amp
  | bar
  | bang
  deriving DecidableEq, Repr

namespace Symbol

/-- The characters of a symbol. -/
def chars : Symbol → List Char
  | tripleEqual => ['=', '=', '=']
  | bangDoubleEqual => ['!', '=', '=']
  | doubleAmp => ['&', '&']
  | doubleBar => ['|', '|']
  | greaterEqual => ['>', '=']
  | lessEqual => ['<', '=']
  | doubleEqual => ['=', '=']
  | bangEqual => ['!', '=']
  | doubleSlash => ['/', '/']
  | plus => ['+']
  | minus => ['-']
  | star => ['*']
  | slash => ['/']
  | caret => ['^']
  | greater => ['>']
  | less => ['<']
  | amp => ['&']
  | bar => ['|']
  | bang => ['!']

def spelling (s : Symbol) : String :=
  String.ofList s.chars

/-- Every symbol, longer spellings first, so that the first one that fits is the longest. -/
def all : List Symbol :=
  [tripleEqual, bangDoubleEqual, doubleAmp, doubleBar, greaterEqual, lessEqual, doubleEqual,
    bangEqual, doubleSlash, plus, minus, star, slash, caret, greater, less, amp, bar, bang]

def ofSpelling? (s : String) : Option Symbol :=
  all.find? (fun sym => sym.chars == s.toList)

/-- The longest symbol that the text starts with. -/
def atFront? (cs : List Char) : Option Symbol :=
  all.find? (fun sym => sym.chars.isPrefixOf cs)

/-- The operator between two operands. -/
def binary? : Symbol → Option BinaryOp
  | doubleBar => some .or
  | doubleAmp => some .and
  | bar => some .bitOr
  | amp => some .bitAnd
  | doubleEqual | tripleEqual => some .eq
  | bangEqual | bangDoubleEqual => some .notEq
  | less => some .lt
  | lessEqual => some .ltEq
  | greater => some .gt
  | greaterEqual => some .gtEq
  | plus => some .add
  | minus => some .sub
  | star => some .mul
  | slash => some .div
  | doubleSlash => some .intDiv
  | caret => some .pow
  | bang => none

/-- The operator in front of one operand. -/
def unary? : Symbol → Option UnaryOp
  | plus => some .plus
  | minus => some .neg
  | bang => some .not
  | _ => none

end Symbol

/-- Round and square brackets mean the same, but each closes only its own kind. -/
inductive Bracket where
  | round
  | square
  deriving DecidableEq, Repr

namespace Bracket

def openingChar : Bracket → Char
  | round => '('
  | square => '['

def closingChar : Bracket → Char
  | round => ')'
  | square => ']'

def ofOpening? : Char → Option Bracket
  | '(' => some round
  | '[' => some square
  | _ => none

def ofClosing? : Char → Option Bracket
  | ')' => some round
  | ']' => some square
  | _ => none

end Bracket
end Formula
end TurtleGraphics
