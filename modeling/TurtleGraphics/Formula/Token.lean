import TurtleGraphics.Formula.Error
import TurtleGraphics.Formula.Symbol
import TurtleGraphics.Number.Plain
import TurtleGraphics.Text.Blank

/-!
# TurtleGraphics.Formula.Token

Tokens of formulas. `scan` cuts a text into tokens, each the longest of its class, and skips blanks.
`withProducts` then writes the multiplication sign that may be left out, as in `2x` or `(a)(b)`; a
name directly before an opening bracket is a call and gets none.
-/

namespace TurtleGraphics
namespace Formula

inductive Token where
  | num (value : Float)
  | ident (name : String)
  | op (symbol : Symbol)
  | opening (bracket : Bracket)
  | closing (bracket : Bracket)
  | comma
  deriving DecidableEq

namespace Token

/-- The token as a reader would write it; a number in its shortest form. -/
def text : Token → String
  | num value => Number.plain value
  | ident name => name
  | op symbol => symbol.spelling
  | opening bracket => bracket.openingChar.toString
  | closing bracket => bracket.closingChar.toString
  | comma => ","

/-! ## Scanning -/

/-- The characters of the number at the front: digits, digits with a fraction, or a fraction alone. A
point without digits after it is no part of a number. -/
def numberAtFront? (cs : List Char) : Option (List Char) :=
  let whole := cs.takeWhile Char.isDigit
  match cs.dropWhile Char.isDigit with
  | '.' :: rest =>
    match rest.takeWhile Char.isDigit with
    | [] => if whole.isEmpty then none else some whole
    | fraction => some (whole ++ '.' :: fraction)
  | _ => if whole.isEmpty then none else some whole

def isNameChar (c : Char) : Bool :=
  c.isAlphanum || c == '_'

/-- The token at the front of `c :: cs`, which starts with no blank, and how many characters of `cs`
belong to it. -/
def atFront (c : Char) (cs : List Char) : Except Error (Token × Nat) :=
  if c.isDigit || c == '.' then
    match numberAtFront? (c :: cs) with
    | some lexeme => .ok (num (Number.ofDecimal lexeme), lexeme.length - 1)
    | none => .error (.unexpectedChar c)
  else if c.isAlpha then
    let tail := cs.takeWhile isNameChar
    .ok (ident (String.ofList (c :: tail)), tail.length)
  else
    match Bracket.ofOpening? c, Bracket.ofClosing? c with
    | some bracket, _ => .ok (opening bracket, 0)
    | none, some bracket => .ok (closing bracket, 0)
    | none, none =>
      if c == ',' then .ok (comma, 0)
      else
        match Symbol.atFront? (c :: cs) with
        | some symbol => .ok (op symbol, symbol.chars.length - 1)
        | none => .error (.unexpectedChar c)

/-- The tokens after the first `skip` characters, which belong to a token already read. -/
def scanFrom : Nat → List Char → Except Error (List Token)
  | _, [] => .ok []
  | skip + 1, _ :: cs => scanFrom skip cs
  | 0, c :: cs =>
    if Text.isBlank c then scanFrom 0 cs
    else
      match atFront c cs with
      | .error e => .error e
      | .ok (token, length) =>
        match scanFrom length cs with
        | .error e => .error e
        | .ok tokens => .ok (token :: tokens)

theorem scanFrom_eq_drop (skip : Nat) (cs : List Char) :
    scanFrom skip cs = scanFrom 0 (cs.drop skip) := by
  induction cs generalizing skip with
  | nil => cases skip <;> rfl
  | cons c cs ih =>
    cases skip with
    | zero => rfl
    | succ skip => exact ih skip

/-- The tokens of a text as written. -/
def scan (cs : List Char) : Except Error (List Token) :=
  scanFrom 0 cs

/-! ## Products without a sign -/

/-- Whether two neighbours read as a product. -/
def areFactors : Token → Token → Bool
  | num _, ident _ => true
  | num _, opening _ => true
  | closing _, ident _ => true
  | closing _, opening _ => true
  | ident _, ident _ => true
  | ident _, num _ => true
  | _, _ => false

/-- Puts a multiplication sign between neighbours that read as a product. -/
def withProducts : List Token → List Token
  | [] => []
  | [a] => [a]
  | a :: b :: rest =>
    if areFactors a b then a :: op .star :: withProducts (b :: rest)
    else a :: withProducts (b :: rest)

/-- The tokens of a text, with all products written out. -/
def ofText (cs : List Char) : Except Error (List Token) :=
  match scan cs with
  | .error e => .error e
  | .ok tokens => .ok (withProducts tokens)

end Token
end Formula
end TurtleGraphics
