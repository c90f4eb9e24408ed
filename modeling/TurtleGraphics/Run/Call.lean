import TurtleGraphics.Formula.Definition
import TurtleGraphics.Program.Block
import TurtleGraphics.Run.Command

/-!
# TurtleGraphics.Run.Call

Call statements. Arguments are evaluated from left to right, then the name is looked up: a call goes to
a procedure of the program, to a command of the turtle, or, for two reserved words, defines a formula
function.
-/

namespace TurtleGraphics

open Program (Statement Mark)

/-- How the body of a statement or procedure is run. -/
abbrev BodyRunner := List Statement → Context → Machine → Outcome

/-! ## Arguments -/

/-- Drops one pair of double quotes, or a single one in front. -/
def unquote (word : String) : String :=
  match word.toList with
  | '"' :: cs => String.ofList (if Program.endsWithQuote cs then cs.dropLast else cs)
  | _ => word

namespace Machine

/-- The value of an argument: text in quotes, a text bound to the name, a formula, or a color word that
is not the name of a variable. -/
def argumentValue (m : Machine) (cx : Context) (line : Nat) (word : String) : Except Fault Value :=
  if Program.startsWithQuote word.toList then
    match m.library.interpolate cx.scope (unquote word) with
    | .error e => .error ⟨line, .formula e⟩
    | .ok s => .ok (.text s)
  else
    match cx.get? word with
    | some (.text s) => .ok (.text s)
    | _ =>
      match m.evalFormula cx line word with
      | .ok x => .ok (.num x)
      | .error ⟨line, .formula (.undefinedVariable name)⟩ =>
        if Color.isWord word then .ok (.text word)
        else .error ⟨line, .formula (.undefinedVariable name)⟩
      | .error f => .error f

/-- The values of arguments, from left to right. -/
def argumentValues (m : Machine) (cx : Context) (line : Nat) : List String → Except Fault (List Value)
  | [] => .ok []
  | word :: words =>
    match m.argumentValue cx line word with
    | .error f => .error f
    | .ok v =>
      match m.argumentValues cx line words with
      | .error f => .error f
      | .ok vs => .ok (v :: vs)

end Machine

/-! ## Definitions of formula functions -/

/-- By how much a word changes the number of open round brackets. -/
def roundDepth (word : String) : Int :=
  (word.toList.count '(' : Int) - word.toList.count ')'

/-- The words of a signature, which goes on while round brackets are open, and the words after it. The
depth is without bounds: texts with 2^31 brackets, where a depth of 32 bits overflows, are out of
scope. -/
def splitSignature : Int → List String → List String × List String
  | _, [] => ([], [])
  | depth, word :: words =>
    let depth := depth + roundDepth word
    if depth ≤ 0 then ([word], words)
    else
      let (signature, body) := splitSignature depth words
      (word :: signature, body)

/-- Defines a formula function from the words of a statement. -/
def Machine.defineFunction (m : Machine) (line : Nat) (keyword : String) (args : List String) :
    Outcome :=
  let (signature, body) := splitSignature 0 (args.map unquote)
  let signature := ", ".intercalate signature
  let body := Text.joinWords body
  if signature.isEmpty || body.isEmpty then .fault ⟨line, .incompleteDefinition keyword⟩ m
  else
    match m.library.define signature body with
    | .error e => .fault ⟨line, .formula e⟩ m
    | .ok (_, library) => .done { m with library := library }

/-- Whether a word defines a formula function. -/
def definesFunction (word : String) : Bool :=
  word == "fn" || word == "make"

/-! ## Calls -/

inductive Target where
  | procedure (p : Procedure)
  | command (c : Command)

namespace Machine

/-- What a name in a program calls: a bound text is the name meant, a procedure goes before a
command. -/
def target (m : Machine) (cx : Context) (line : Nat) (name : String) : Except Fault Target :=
  match cx.get? name with
  | some (.num _) => .error ⟨line, .notCallable name⟩
  | some (.text meant) => find meant
  | none => find name
where
  find (meant : String) : Except Fault Target :=
    match m.procedures[meant]? with
    | some p => .ok (.procedure p)
    | none =>
      match Command.ofName? meant with
      | some c => .ok (.command c)
      | none => .error ⟨line, .undefinedCommand meant⟩

/-- Counts a call made from inside another call, and refuses it if a budget is used up. -/
def admitCall (m : Machine) (line depth : Nat) : Except Fault Machine :=
  if m.limits.maxDepth < depth then .error ⟨line, .depthLimit m.limits.maxDepth⟩
  else if depth ≤ 1 then .ok m
  else if m.limits.maxRecursions ≤ m.recursions then
    .error ⟨line, .recursionLimit m.limits.maxRecursions⟩
  else .ok { m with recursions := m.recursions + 1 }

/-- Calls a procedure. -/
def callProcedure (m : Machine) (body : BodyRunner) (cx : Context) (line : Nat) (p : Procedure)
    (args : List Value) : Outcome :=
  let inner := cx.call (bindParams p.params args)
  match m.admitCall line inner.depth with
  | .error f => .fault f m
  | .ok m => body p.body inner m

/-- Carries out a call statement. -/
def call (m : Machine) (body : BodyRunner) (cx : Context) (mark : Mark) (name : String)
    (args : List String) : Outcome :=
  if definesFunction name then m.defineFunction mark.line name args
  else
    match m.argumentValues cx mark.line args with
    | .error f => .fault f m
    | .ok values =>
      match m.target cx mark.line name with
      | .error f => .fault f m
      | .ok (.procedure p) => m.callProcedure body cx mark.line p values
      | .ok (.command c) => c.run ⟨name, values, mark.line⟩ m

end Machine

end TurtleGraphics
