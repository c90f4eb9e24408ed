import TurtleGraphics.Formula.Library

/-!
# TurtleGraphics.Formula.Definition

Defining functions. A signature is a name, or a name with plain parameter names in brackets; it is
read as a formula in which any call is allowed. The body may call the function itself. A source text
`defn SIGNATURE, BODY` defines instead of computing.
-/

namespace TurtleGraphics
namespace Formula

/-- How an error message names a formula that stands where a parameter should. -/
def Expr.briefly : Expr → String
  | .num value => Number.plain value
  | .var name => name
  | .call name _ => name ++ "(…)"
  | .binary _ _ _ => "expression"
  | .unary _ _ => "expression"

/-- The parameter names, if all arguments of a signature are plain names. -/
def paramNames : List Expr → Except Error (List String)
  | [] => .ok []
  | .var name :: args =>
    match paramNames args with
    | .error e => .error e
    | .ok names => .ok (name :: names)
  | arg :: _ => .error (.invalidParameter arg.briefly)

/-- The name and the parameters that a signature declares. -/
def readSignature (signature : String) : Except Error (String × List String) :=
  match Expr.ofText anyCall signature.toList with
  | .error e => .error e
  | .ok head =>
    match head with
    | .call name args => declare name args
    | .var name => declare name []
    | _ => .error (.invalidSignature (Text.trimString signature))
where
  declare (name : String) (args : List Expr) : Except Error (String × List String) :=
    match Builtin.ofName? name with
    | some _ => .error (.redefinesBuiltin name)
    | none =>
      match paramNames args with
      | .error e => .error e
      | .ok params => .ok (name, params)

namespace Library

/-- Defines a function, or defines it anew. Returns its name and the changed library. -/
def define (lib : Library) (signature body : String) : Except Error (String × Library) :=
  match readSignature signature with
  | .error e => .error e
  | .ok (name, params) =>
    match Expr.ofText (lib.checkCall (some (name, params.length))) body.toList with
    | .error e => .error e
    | .ok tree => .ok (name, lib.insert name ⟨params, tree⟩)

end Library

/-! ## Definitions inside formula texts -/

/-- By how much a character changes the bracket depth. -/
def depthChange (c : Char) : Int :=
  if c == '(' || c == '[' then 1
  else if c == ')' || c == ']' then -1
  else 0

/-- The texts before and after the first comma at bracket depth 0, from a given depth on. The depth is
without bounds: texts with 2^31 brackets, where a depth of 32 bits overflows, are out of scope. -/
def splitAtComma? : Int → List Char → Option (List Char × List Char)
  | _, [] => none
  | depth, c :: cs =>
    if c == ',' && depth == 0 then some ([], cs)
    else
      match splitAtComma? (depth + depthChange c) cs with
      | none => none
      | some (before, after) => some (c :: before, after)

/-- Signature and body of a definition; neither may be blank. -/
def definitionParts? (cs : List Char) : Option (List Char × List Char) :=
  match splitAtComma? 0 cs with
  | none => none
  | some (before, after) =>
    let signature := Text.trim before
    let body := Text.trim after
    if signature.isEmpty || body.isEmpty then none else some (signature, body)

/-- The text after the word `defn`, if a definition starts here. -/
def afterDefn? : List Char → Option (List Char)
  | 'd' :: 'e' :: 'f' :: 'n' :: c :: cs => if Text.isBlank c then some (c :: cs) else none
  | _ => none

/-- Evaluates a text. A definition changes the library and has the value 0. -/
def Library.evaluate (lib : Library) (vars : Scope) (source : String) :
    Except Error (Float × Library) :=
  let trimmed := Text.trim source.toList
  match afterDefn? trimmed with
  | some rest =>
    match definitionParts? rest with
    | none => .error (.invalidSignature (String.ofList (Text.trim rest)))
    | some (signature, body) =>
      match lib.define (String.ofList signature) (String.ofList body) with
      | .error e => .error e
      | .ok (_, lib) => .ok (0, lib)
  | none =>
    match lib.read (String.ofList trimmed) with
    | .error e => .error e
    | .ok tree =>
      match lib.eval vars tree with
      | .error e => .error e
      | .ok x => .ok (x, lib)

end Formula
end TurtleGraphics
