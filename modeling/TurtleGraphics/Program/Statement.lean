/-!
# TurtleGraphics.Program.Statement

Programs as trees. Arguments, counts and guards stay text in a tree; they are read as formulas when
the statement is executed, because what they mean depends on the functions defined by then.
-/

namespace TurtleGraphics
namespace Program

/-- Where a statement stands, and the comment on its line. -/
structure Mark where
  line : Nat
  comment : Option String
  deriving DecidableEq, Repr

inductive Statement where
  /-- A line that holds a comment only. -/
  | empty (mark : Mark)
  /-- A command, or a call of a procedure. -/
  | call (mark : Mark) (name : String) (args : List String)
  /-- Repeats a body. -/
  | loop (mark : Mark) (count : String) (body : List Statement)
  /-- Executes a body if the guard holds. -/
  | when (mark : Mark) (guard : String) (body : List Statement)
  /-- Defines a procedure. -/
  | define (mark : Mark) (name : String) (params : List String) (body : List Statement)

namespace Statement

def mark : Statement → Mark
  | empty m => m
  | call m _ _ => m
  | loop m _ _ => m
  | when m _ _ => m
  | define m _ _ _ => m

def line (s : Statement) : Nat :=
  s.mark.line

def comment (s : Statement) : Option String :=
  s.mark.comment

def isEmpty : Statement → Bool
  | empty _ => true
  | _ => false

mutual

/-- Equality up to line numbers and comments. -/
def sameShape : Statement → Statement → Bool
  | empty _, empty _ => true
  | call _ name args, call _ name' args' => name == name' && args == args'
  | loop _ count body, loop _ count' body' => count == count' && sameShapes body body'
  | when _ guard body, when _ guard' body' => guard == guard' && sameShapes body body'
  | define _ name params body, define _ name' params' body' =>
    name == name' && params == params' && sameShapes body body'
  | _, _ => false

/-- Equality of lists up to line numbers and comments. -/
def sameShapes : List Statement → List Statement → Bool
  | [], [] => true
  | s :: ss, t :: ts => sameShape s t && sameShapes ss ts
  | _, _ => false

end

end Statement
end Program
end TurtleGraphics
