import Std.Data.TreeMap
import TurtleGraphics.Formula.Builtin
import TurtleGraphics.Formula.Reading

/-!
# TurtleGraphics.Formula.Library

Defined functions, and evaluation. A body sees its parameters and nothing else of the caller's
variables. `Expr.evalWith` evaluates a tree with given meanings of names and calls; `Library.callAt`
supplies them, by recursion on the number of calls that may still nest.
-/

namespace TurtleGraphics
namespace Formula

/-- The variables in sight. -/
abbrev Scope := String → Option Float

def noVariables : Scope :=
  fun _ => none

structure Function where
  params : List String
  body : Expr

namespace Function

def arity (f : Function) : Nat :=
  f.params.length

/-- The variables of the body. Of two parameters with one name the later counts. -/
def scope (f : Function) (args : List Float) : Scope :=
  fun name => (f.params.zip args).reverse.lookup name

end Function

/-- The defined functions by name. -/
structure Library where
  functions : Std.TreeMap String Function

namespace Library

def empty : Library := ⟨∅⟩

def find? (lib : Library) (name : String) : Option Function :=
  lib.functions[name]?

def insert (lib : Library) (name : String) (f : Function) : Library :=
  ⟨lib.functions.insert name f⟩

def size (lib : Library) : Nat :=
  lib.functions.size

/-- The number of arguments of a built-in or defined function. -/
def arity? (lib : Library) (name : String) : Option Nat :=
  match Builtin.ofName? name with
  | some f => some f.arity
  | none => (lib.find? name).map Function.arity

/-- The number of arguments of a function while another one is being defined, which may call itself. -/
def arityDefining? (lib : Library) (own : Option (String × Nat)) (name : String) : Option Nat :=
  match own with
  | some (ownName, arity) => if ownName = name then some arity else lib.arity? name
  | none => lib.arity? name

/-- Allows the calls of known functions with as many arguments as they take. -/
def checkCall (lib : Library) (own : Option (String × Nat)) : CallCheck :=
  fun name got =>
    match lib.arityDefining? own name with
    | none => .error (.unknownFunction name)
    | some expected => if expected = got then .ok () else .error (.arity name expected got)

/-- Reads a formula whose calls the library knows. -/
def read (lib : Library) (source : String) : Except Error Expr :=
  Expr.ofText (lib.checkCall none) source.toList

end Library

/-! ## Evaluation -/

/-- All numbers but zero and NaN count as true. -/
def isTrue (x : Float) : Bool :=
  x != 0 && !x.isNaN

def ofBool (b : Bool) : Float :=
  if b then 1 else 0

/-- The operators that use both operands. -/
def BinaryOp.apply (op : BinaryOp) (l r : Float) : Float :=
  match op with
  | .or => ofBool (isTrue l || isTrue r)
  | .and => ofBool (isTrue l && isTrue r)
  | .bitOr => (l.toInt64 ||| r.toInt64).toFloat
  | .bitAnd => (l.toInt64 &&& r.toInt64).toFloat
  | .eq => ofBool (l == r)
  | .notEq => ofBool (l != r)
  | .lt => ofBool (l < r)
  | .ltEq => ofBool (l ≤ r)
  | .gt => ofBool (r < l)
  | .gtEq => ofBool (r ≤ l)
  | .add => l + r
  | .sub => l - r
  | .mul => l * r
  | .div => l / r
  | .intDiv => (l / r).floor
  | .pow => Float.pow l r

def UnaryOp.apply (op : UnaryOp) (x : Float) : Float :=
  match op with
  | .plus => x
  | .neg => -x
  | .not => ofBool (!isTrue x)

/-- The value of a binary operation whose left operand alone decides it. -/
def BinaryOp.decided? (op : BinaryOp) (l : Float) : Option Float :=
  match op with
  | .and => if isTrue l then none else some 0
  | .or => if isTrue l then some 1 else none
  | _ => none

mutual

/-- The value of a formula, with `var` for the meaning of names and `call` for that of calls.
Operands and arguments are evaluated from left to right. -/
def Expr.evalWith (var : String → Except Error Float)
    (call : String → List Float → Except Error Float) : Expr → Except Error Float
  | .num value => .ok value
  | .var name => var name
  | .unary op operand =>
    match operand.evalWith var call with
    | .error e => .error e
    | .ok x => .ok (op.apply x)
  | .binary op left right =>
    match left.evalWith var call with
    | .error e => .error e
    | .ok l =>
      match op.decided? l with
      | some x => .ok x
      | none =>
        match right.evalWith var call with
        | .error e => .error e
        | .ok r => .ok (op.apply l r)
  | .call name args =>
    match Expr.evalAllWith var call args with
    | .error e => .error e
    | .ok values => call name values

/-- The values of an argument list. -/
def Expr.evalAllWith (var : String → Except Error Float)
    (call : String → List Float → Except Error Float) : List Expr → Except Error (List Float)
  | [] => .ok []
  | arg :: args =>
    match arg.evalWith var call with
    | .error e => .error e
    | .ok x =>
      match Expr.evalAllWith var call args with
      | .error e => .error e
      | .ok xs => .ok (x :: xs)

end

namespace Library

/-- The meaning of a name: a variable, else a constant, else a function without parameters. -/
def valueOf (lib : Library) (call : String → List Float → Except Error Float) (vars : Scope)
    (name : String) : Except Error Float :=
  match vars name with
  | some x => .ok x
  | none =>
    match constant? name with
    | some x => .ok x
    | none =>
      match lib.find? name with
      | some f => if f.params.isEmpty then call name [] else .error (.undefinedVariable name)
      | none => .error (.undefinedVariable name)

/-- Finds the function to call and checks the number of arguments; `enter` evaluates a body. -/
def callWith (lib : Library) (enter : Function → List Float → Except Error Float) (name : String)
    (args : List Float) : Except Error Float :=
  match Builtin.ofName? name with
  | some f =>
    match f.value? args with
    | some x => .ok x
    | none => .error (.arity name f.arity args.length)
  | none =>
    match lib.find? name with
    | none => .error (.unknownFunction name)
    | some f =>
      if f.arity = args.length then enter f args
      else .error (.arity name f.arity args.length)

/-- A call inside which at most `room` calls of defined functions nest. -/
def callAt (lib : Library) : Nat → String → List Float → Except Error Float
  | 0 => lib.callWith fun _ _ => .error .callsTooDeep
  | room + 1 => lib.callWith fun f args =>
    f.body.evalWith (lib.valueOf (lib.callAt room) (f.scope args)) (lib.callAt room)

/-- The value of a formula inside `depth` calls of defined functions. -/
def evalAt (lib : Library) (depth : Nat) (vars : Scope) (e : Expr) : Except Error Float :=
  let call := lib.callAt (maxCallDepth - depth)
  e.evalWith (lib.valueOf call vars) call

/-- The value of a formula. -/
def eval (lib : Library) (vars : Scope) (e : Expr) : Except Error Float :=
  lib.evalAt 0 vars e

end Library
end Formula
end TurtleGraphics
