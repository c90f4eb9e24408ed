/-!
# TurtleGraphics.Diagnostic

Error codes. A code names the phase that found the error by a letter, and the error within that
phase by a number: `P` for the structure of a program, `E` for the form of a formula, `S` for what a
name or value means, `R` for a resource that ran out.
-/

namespace TurtleGraphics

inductive Phase where
  | program
  | formula
  | semantic
  | resource
  deriving DecidableEq, Repr

/-- The coarse class of an error: malformed text, meaningless text, or a run that was too long. -/
inductive ErrorKind where
  | syntactic
  | semantic
  | resource
  deriving DecidableEq, Repr

def Phase.letter : Phase → String
  | .program => "P"
  | .formula => "E"
  | .semantic => "S"
  | .resource => "R"

def Phase.kind : Phase → ErrorKind
  | .program => .syntactic
  | .formula => .syntactic
  | .semantic => .semantic
  | .resource => .resource

structure Code where
  phase : Phase
  number : Nat
  deriving DecidableEq, Repr

namespace Code

def kind (c : Code) : ErrorKind :=
  c.phase.kind

/-- The letter of the phase and at least three digits. -/
def text (c : Code) : String :=
  let digits := toString c.number
  c.phase.letter ++ String.ofList (List.replicate (3 - digits.length) '0') ++ digits

end Code
end TurtleGraphics
