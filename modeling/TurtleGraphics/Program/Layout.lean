import TurtleGraphics.Program.Statement
import TurtleGraphics.Text.Split

/-!
# TurtleGraphics.Program.Layout

Writing programs. Each statement takes a line, a block also one for its `end`; bodies are indented by
two spaces a level, and comments follow on the line of their statement.
-/

namespace TurtleGraphics
namespace Program

def indentation (depth : Nat) : String :=
  String.ofList (List.replicate (2 * depth) ' ')

namespace Statement

/-- The words of a statement's first line. -/
def heading : Statement → String
  | empty _ => ""
  | call _ name args => Text.joinWords (name :: args)
  | loop _ count _ => "for " ++ count ++ " do"
  | when _ guard _ => "when " ++ guard ++ " do"
  | define _ name params _ => Text.joinWords ("draw" :: name :: (params ++ ["do"]))

end Statement

/-- A line's comment behind its words. -/
def withComment (words : String) : Option String → String
  | none => words
  | some text =>
    (if words.isEmpty then "" else words ++ " ") ++ (if text.isEmpty then "#" else "# " ++ text)

mutual

/-- The lines of a statement at a given depth of indentation. -/
def Statement.layout (depth : Nat) : Statement → List String
  | .empty mark => [indentation depth ++ withComment (Statement.empty mark).heading mark.comment]
  | .call mark name args =>
    [indentation depth ++ withComment (Statement.call mark name args).heading mark.comment]
  | .loop mark count body =>
    (indentation depth ++ withComment (Statement.loop mark count []).heading mark.comment) ::
      (Statement.layoutAll (depth + 1) body ++ [indentation depth ++ "end"])
  | .when mark guard body =>
    (indentation depth ++ withComment (Statement.when mark guard []).heading mark.comment) ::
      (Statement.layoutAll (depth + 1) body ++ [indentation depth ++ "end"])
  | .define mark name params body =>
    (indentation depth ++ withComment (Statement.define mark name params []).heading mark.comment) ::
      (Statement.layoutAll (depth + 1) body ++ [indentation depth ++ "end"])

/-- The lines of a body. -/
def Statement.layoutAll (depth : Nat) : List Statement → List String
  | [] => []
  | s :: rest => s.layout depth ++ Statement.layoutAll depth rest

end

/-- The text of a program, every line ended by a line feed. -/
def render (program : List Statement) : String :=
  String.join ((Statement.layoutAll 0 program).map (· ++ "\n"))

end Program
end TurtleGraphics
