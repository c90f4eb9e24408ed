import TurtleGraphics.Formula.Library

/-!
# TurtleGraphics.Formula.Template

Formulas inside text. A group `[formula]` stands for the value of the formula; brackets may nest
inside it. A group whose content stands between backticks is kept as it is, and an opening bracket
that is never closed keeps the rest of the text. Passes are made until one replaces nothing.
-/

namespace TurtleGraphics
namespace Formula
namespace Template

/-- The text up to the bracket that closes a group, and the text after it. `depth` counts the inner
brackets that are open. -/
def splitGroup? : Nat → List Char → Option (List Char × List Char)
  | _, [] => none
  | depth, c :: cs =>
    if c == ']' && depth == 0 then some ([], cs)
    else
      let inside := if c == '[' then depth + 1 else if c == ']' then depth - 1 else depth
      match splitGroup? inside cs with
      | none => none
      | some (inner, rest) => some (c :: inner, rest)

/-- Whether the content of a group is quoted by backticks. -/
def isVerbatim (inner : List Char) : Bool :=
  decide (2 ≤ inner.length) && inner.head? == some '\x60' && inner.getLast? == some '\x60'

/-- The text that replaces a group. -/
def valueText (lib : Library) (vars : Scope) (inner : List Char) : Except Error (List Char) :=
  match Expr.ofText (lib.checkCall none) inner with
  | .error e => .error e
  | .ok tree =>
    match lib.eval vars tree with
    | .error e => .error e
    | .ok x => .ok (Number.label x).toList

/-- One pass over the text after its first `skip` characters, which belong to a group already seen;
also says whether anything was replaced. -/
def passFrom (lib : Library) (vars : Scope) : Nat → List Char → Except Error (List Char × Bool)
  | _, [] => .ok ([], false)
  | skip + 1, _ :: cs => passFrom lib vars skip cs
  | 0, c :: cs =>
    if c == '[' then
      match splitGroup? 0 cs with
      | none => .ok (c :: cs, false)
      | some (inner, _) =>
        if isVerbatim inner then
          match passFrom lib vars (inner.length + 1) cs with
          | .error e => .error e
          | .ok (out, replaced) => .ok ('[' :: inner ++ ']' :: out, replaced)
        else
          match valueText lib vars inner with
          | .error e => .error e
          | .ok value =>
            match passFrom lib vars (inner.length + 1) cs with
            | .error e => .error e
            | .ok (out, _) => .ok (value ++ out, true)
    else
      match passFrom lib vars 0 cs with
      | .error e => .error e
      | .ok (out, replaced) => .ok (c :: out, replaced)

theorem passFrom_eq_drop (lib : Library) (vars : Scope) (skip : Nat) (cs : List Char) :
    passFrom lib vars skip cs = passFrom lib vars 0 (cs.drop skip) := by
  induction cs generalizing skip with
  | nil => cases skip <;> rfl
  | cons c cs ih =>
    cases skip with
    | zero => rfl
    | succ skip => exact ih skip

/-- One pass over a text. -/
def pass (lib : Library) (vars : Scope) (cs : List Char) : Except Error (List Char × Bool) :=
  passFrom lib vars 0 cs

/-- At most `count` passes, up to the first one that replaces nothing. -/
def passes (lib : Library) (vars : Scope) : Nat → List Char → Except Error (List Char)
  | 0, cs => .ok cs
  | count + 1, cs =>
    match pass lib vars cs with
    | .error e => .error e
    | .ok (out, true) => passes lib vars count out
    | .ok (out, false) => .ok out

end Template

/-- Replaces the groups of a text by values. A pass that replaces takes away a bracket and a value
brings none, so there are no more passes than opening brackets, and one that changes nothing. -/
def Library.interpolate (lib : Library) (vars : Scope) (text : String) : Except Error String :=
  match Template.passes lib vars (text.toList.count '[' + 1) text.toList with
  | .error e => .error e
  | .ok out => .ok (String.ofList out)

end Formula
end TurtleGraphics
