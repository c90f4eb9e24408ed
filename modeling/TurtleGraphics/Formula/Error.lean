import TurtleGraphics.Diagnostic

/-!
# TurtleGraphics.Formula.Error

What can be wrong with a formula, from its characters to its evaluation. Each constructor is a cause;
`code` and `message` are the only places that know numbers and wording.
-/

namespace TurtleGraphics
namespace Formula

/-- How deep brackets, operators in front and chains of operators may nest in one formula. -/
def maxNesting : Nat := 64

/-- How deep calls of defined functions may nest in one evaluation. -/
def maxCallDepth : Nat := 256

inductive Error where
  | unexpectedChar (c : Char)
  | unexpectedToken (text : String)
  | strayClosing (c : Char)
  | unexpectedEnd
  | empty
  | mismatched (expected : Char) (found : String)
  | nestedTooDeep
  | undefinedVariable (name : String)
  | unknownFunction (name : String)
  | arity (name : String) (expected got : Nat)
  | invalidSignature (text : String)
  | invalidParameter (text : String)
  | redefinesBuiltin (name : String)
  | unknownOperator (symbol : String)
  | callsTooDeep
  deriving DecidableEq, Repr

namespace Error

def code : Error → Code
  | unexpectedChar _ => ⟨.formula, 1⟩
  | unexpectedToken _ => ⟨.formula, 2⟩
  | strayClosing _ => ⟨.formula, 3⟩
  | unexpectedEnd => ⟨.formula, 4⟩
  | empty => ⟨.formula, 4⟩
  | mismatched _ _ => ⟨.formula, 5⟩
  | nestedTooDeep => ⟨.formula, 6⟩
  | undefinedVariable _ => ⟨.semantic, 4⟩
  | unknownFunction _ => ⟨.semantic, 2⟩
  | arity _ _ _ => ⟨.semantic, 3⟩
  | invalidSignature _ => ⟨.semantic, 5⟩
  | invalidParameter _ => ⟨.semantic, 5⟩
  | redefinesBuiltin _ => ⟨.semantic, 6⟩
  | unknownOperator _ => ⟨.semantic, 8⟩
  | callsTooDeep => ⟨.resource, 3⟩

def message : Error → String
  | unexpectedChar c => s!"unexpected character `{c}`"
  | unexpectedToken text => s!"unexpected token `{text}`"
  | strayClosing c => s!"unmatched closing bracket `{c}`"
  | unexpectedEnd => "unexpected end of expression"
  | empty => "empty expression"
  | mismatched expected found => s!"expected `{expected}` but found `{found}`"
  | nestedTooDeep => s!"expression nested deeper than {maxNesting} levels"
  | undefinedVariable name => s!"undefined variable `{name}`"
  | unknownFunction name => s!"unknown function `{name}`"
  | arity name expected got => s!"`{name}` expects {expected} argument(s), got {got}"
  | invalidSignature text => s!"invalid function signature `{text}`"
  | invalidParameter text => s!"parameter `{text}` must be a plain name"
  | redefinesBuiltin name => s!"cannot redefine built-in function `{name}`"
  | unknownOperator symbol => s!"unknown operator `{symbol}`"
  | callsTooDeep => s!"function calls nested deeper than {maxCallDepth}"

end Error
end Formula
end TurtleGraphics
