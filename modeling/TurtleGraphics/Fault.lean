import TurtleGraphics.Formula.Error

/-!
# TurtleGraphics.Fault

What can go wrong with a program, from its block structure to its run. A fault is a cause and the
line it is reported at; line 0 stands for no line. Causes carry what the message needs, and `code`
and `message` are the only places that know numbers and wording.
-/

namespace TurtleGraphics

/-- How deep blocks may nest in the text of a program, the program itself counted. -/
def maxBlockDepth : Nat := 128

/-- How deep bodies may nest in a run. -/
def maxBodyNesting : Nat := 2048

inductive Cause where
  | neverClosed (keyword : String)
  | headerWithoutDo (keyword : String)
  | endWithoutDo
  | headerEmpty (keyword : String)
  | opensNoBlock (word : String)
  | blocksTooDeep
  | formula (error : Formula.Error)
  | undefinedCommand (name : String)
  | notCallable (name : String)
  | incompleteDefinition (keyword : String)
  | tooFewArguments (name : String) (needed : Nat)
  | missingText (name : String)
  | missingColor (name : String)
  | notNumeric (name : String) (position : Nat) (text : String)
  | notColor (text : String)
  | commandLimit (limit : Nat)
  | recursionLimit (limit : Nat)
  | depthLimit (limit : Nat)
  | bodiesTooDeep
  deriving DecidableEq, Repr

namespace Cause

def code : Cause → Code
  | neverClosed _ => ⟨.program, 1⟩
  | headerWithoutDo _ => ⟨.program, 2⟩
  | endWithoutDo => ⟨.program, 3⟩
  | headerEmpty _ => ⟨.program, 4⟩
  | opensNoBlock _ => ⟨.program, 5⟩
  | blocksTooDeep => ⟨.program, 6⟩
  | formula error => error.code
  | undefinedCommand _ => ⟨.semantic, 1⟩
  | notCallable _ => ⟨.semantic, 10⟩
  | incompleteDefinition _ => ⟨.semantic, 5⟩
  | tooFewArguments _ _ => ⟨.semantic, 3⟩
  | missingText _ => ⟨.semantic, 3⟩
  | missingColor _ => ⟨.semantic, 3⟩
  | notNumeric _ _ _ => ⟨.semantic, 7⟩
  | notColor _ => ⟨.semantic, 9⟩
  | commandLimit _ => ⟨.resource, 1⟩
  | recursionLimit _ => ⟨.resource, 2⟩
  | depthLimit _ => ⟨.resource, 3⟩
  | bodiesTooDeep => ⟨.resource, 3⟩

def message : Cause → String
  | neverClosed keyword => s!"`{keyword}` block is never closed with `end`"
  | headerWithoutDo keyword => s!"`{keyword}` line must end with `do`"
  | endWithoutDo => "`end` without a matching `do`"
  | headerEmpty keyword => s!"`{keyword}` needs something between `{keyword}` and `do`"
  | opensNoBlock word => s!"`{word}` cannot open a block"
  | blocksTooDeep => s!"blocks nested deeper than {maxBlockDepth} levels"
  | formula error => error.message
  | undefinedCommand name => s!"`{name}` is not defined"
  | notCallable name => s!"`{name}` is bound to a number and cannot be called"
  | incompleteDefinition keyword => s!"`{keyword}` needs a name and a body expression"
  | tooFewArguments name needed => s!"`{name}` needs at least {needed} argument(s)"
  | missingText name => s!"`{name}` needs the text to write"
  | missingColor name => s!"`{name}` needs a color"
  | notNumeric name position text =>
    s!"`{name}` argument {position} must be a number, got \"{text}\""
  | notColor text => s!"\"{text}\" is not a color"
  | commandLimit limit => s!"command limit of {limit} reached"
  | recursionLimit limit => s!"recursion limit of {limit} reached"
  | depthLimit limit => s!"call depth limit of {limit} exceeded"
  | bodiesTooDeep => s!"program nested deeper than {maxBodyNesting} levels"

end Cause

structure Fault where
  line : Nat
  cause : Cause
  deriving DecidableEq, Repr

namespace Fault

def code (f : Fault) : Code :=
  f.cause.code

def kind (f : Fault) : ErrorKind :=
  f.code.kind

def message (f : Fault) : String :=
  f.cause.message

/-- The fault as one line of text. -/
def display (f : Fault) : String :=
  "[" ++ f.code.text ++ "] line " ++ toString f.line ++ ": " ++ f.message

end Fault
end TurtleGraphics
