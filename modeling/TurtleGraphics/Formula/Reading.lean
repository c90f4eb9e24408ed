import TurtleGraphics.Formula.Expr
import TurtleGraphics.Formula.Token

/-!
# TurtleGraphics.Formula.Reading

Reading a tree from tokens by binding levels. Nesting is bounded: a bracket, an operator in front and
each further operator of a chain go one level down. A `Level` holds what can be read at one depth of
nesting, and `Level.next` builds it from the level below, if there is one; so the reader is defined by
recursion on the levels that are left.
-/

namespace TurtleGraphics
namespace Formula

/-- What was read, and the tokens after it. -/
abbrev Reading := Except Error (Expr × List Token)

/-- Decides whether a function may be called with a number of arguments. -/
abbrev CallCheck := String → Nat → Except Error Unit

/-- Allows every call. -/
def anyCall : CallCheck :=
  fun _ _ => .ok ()

structure Level where
  /-- A number, a name, a call, a bracket, or one of these after operators in front. -/
  primary : List Token → Reading
  /-- Continues an operand with the operators that bind at least at a given level. -/
  chain : Nat → Expr → List Token → Reading

/-- A primary continued by operators that bind at least at level `least`. -/
def Level.expr (l : Level) (least : Nat) (ts : List Token) : Reading :=
  match l.primary ts with
  | .error e => .error e
  | .ok (left, rest) => l.chain least left rest

/-- The tokens after the bracket that closes `bracket`. -/
def closeBracket (bracket : Bracket) : List Token → Except Error (List Token)
  | [] => .error .unexpectedEnd
  | .closing b :: rest =>
    if b = bracket then .ok rest
    else .error (.mismatched bracket.closingChar (Token.closing b).text)
  | token :: _ => .error (.mismatched bracket.closingChar token.text)

/-- One or more arguments separated by commas. Each argument takes a token, so a `fuel` above the
number of tokens does not run out. -/
def argumentsWith (expr : List Token → Reading) :
    Nat → List Token → Except Error (List Expr × List Token)
  | 0, _ => .error .unexpectedEnd
  | fuel + 1, ts =>
    match expr ts with
    | .error e => .error e
    | .ok (arg, .comma :: rest) =>
      match argumentsWith expr fuel rest with
      | .error e => .error e
      | .ok (args, rest) => .ok (arg :: args, rest)
    | .ok (arg, rest) => .ok ([arg], rest)

/-- The arguments after an opening bracket, and the bracket that closes them. -/
def callArguments (expr : List Token → Reading) (bracket : Bracket) (ts : List Token) :
    Except Error (List Expr × List Token) :=
  match ts with
  | .closing _ :: _ =>
    match closeBracket bracket ts with
    | .error e => .error e
    | .ok rest => .ok ([], rest)
  | _ =>
    match argumentsWith expr (ts.length + 1) ts with
    | .error e => .error e
    | .ok (args, rest) =>
      match closeBracket bracket rest with
      | .error e => .error e
      | .ok rest => .ok (args, rest)

namespace Level

/-- Reads one level further down. -/
def descend (below : Option Level) (read : Level → Reading) : Reading :=
  match below with
  | none => .error .nestedTooDeep
  | some l => read l

/-- The primary at the front, with the level below for what it holds inside. -/
def readPrimary (check : CallCheck) (below : Option Level) : List Token → Reading
  | [] => .error .unexpectedEnd
  | .num value :: rest => .ok (.num value, rest)
  | .ident name :: .opening bracket :: rest =>
    match callArguments (fun ts => descend below (·.expr 0 ts)) bracket rest with
    | .error e => .error e
    | .ok (args, rest) =>
      match check name args.length with
      | .error e => .error e
      | .ok () => .ok (.call name args, rest)
  | .ident name :: rest => .ok (.var name, rest)
  | .op symbol :: rest =>
    match symbol.unary? with
    | none => .error (.unexpectedToken symbol.spelling)
    | some op =>
      match descend below (·.primary rest) with
      | .error e => .error e
      | .ok (operand, rest) => .ok (.unary op operand, rest)
  | .opening bracket :: rest =>
    match descend below (·.expr 0 rest) with
    | .error e => .error e
    | .ok (inner, rest) =>
      match closeBracket bracket rest with
      | .error e => .error e
      | .ok rest => .ok (inner, rest)
  | .closing bracket :: _ => .error (.strayClosing bracket.closingChar)
  | .comma :: _ => .error (.unexpectedToken ",")

/-- The operators after a left operand. The right operand and the rest of the chain are read on the
level below. -/
def readChain (below : Option Level) (least : Nat) (left : Expr) (ts : List Token) : Reading :=
  match ts with
  | .op symbol :: rest =>
    match symbol.binary? with
    | none => .error (.unknownOperator symbol.spelling)
    | some op =>
      if op.level < least then .ok (left, ts)
      else
        descend below fun l =>
          match l.expr op.rightLevel rest with
          | .error e => .error e
          | .ok (right, rest) => l.chain least (.binary op left right) rest
  | _ => .ok (left, ts)

/-- The level above `below`. -/
def next (check : CallCheck) (below : Option Level) : Level where
  primary := readPrimary check below
  chain := readChain below

/-- The level with room for `n` more levels below it. A level below is made only when it is used. -/
def withRoom (check : CallCheck) : Nat → Level
  | 0 => next check none
  | n + 1 =>
    { primary := fun ts => readPrimary check (some (withRoom check n)) ts
      chain := fun least left ts => readChain (some (withRoom check n)) least left ts }

theorem withRoom_succ (check : CallCheck) (n : Nat) :
    withRoom check (n + 1) = next check (some (withRoom check n)) := rfl

end Level

/-- The formula that all the tokens together spell. -/
def Expr.ofTokens (check : CallCheck) (ts : List Token) : Except Error Expr :=
  match ts with
  | [] => .error .empty
  | _ =>
    match (Level.withRoom check (maxNesting - 1)).expr 0 ts with
    | .error e => .error e
    | .ok (e, []) => .ok e
    | .ok (_, .closing bracket :: _) => .error (.strayClosing bracket.closingChar)
    | .ok (_, token :: _) => .error (.unexpectedToken token.text)

/-- The formula that a text spells. -/
def Expr.ofText (check : CallCheck) (cs : List Char) : Except Error Expr :=
  match Token.ofText cs with
  | .error e => .error e
  | .ok ts => Expr.ofTokens check ts

end Formula
end TurtleGraphics
