import TurtleGraphics.Text.Blank

/-!
# TurtleGraphics.Text.Split

Cutting a text at separators. `splitWhere` cuts at every character of a class and loses only those
characters; the fields of a text are its non-empty pieces between blanks, and its lines are the
pieces between line feeds.
-/

namespace TurtleGraphics
namespace Text

/-- The pieces between the characters of class `p`; always at least one piece. -/
def splitWhere (p : Char → Bool) : List Char → List (List Char)
  | [] => [[]]
  | c :: cs =>
    if p c then [] :: splitWhere p cs
    else
      match splitWhere p cs with
      | [] => [[c]]
      | piece :: pieces => (c :: piece) :: pieces

theorem splitWhere_ne_nil (p : Char → Bool) (cs : List Char) : splitWhere p cs ≠ [] := by
  cases cs with
  | nil => simp [splitWhere]
  | cons c cs =>
    rw [splitWhere]
    split
    · simp
    · split <;> simp

/-- The non-empty pieces between blanks. -/
def fields (cs : List Char) : List (List Char) :=
  (splitWhere isBlank cs).filter (fun piece => !piece.isEmpty)

/-- One carriage return before a line feed belongs to the line's end. -/
def dropReturn (line : List Char) : List Char :=
  match line.reverse with
  | '\r' :: rest => rest.reverse
  | _ => line

/-- Ends the lines: every piece but the last was ended by a line feed, and a last piece without
characters is no line. -/
def endLines : List (List Char) → List (List Char)
  | [] => []
  | [piece] => if piece.isEmpty then [] else [piece]
  | piece :: pieces => dropReturn piece :: endLines pieces

/-- The lines of a text, without their ends. -/
def lines (cs : List Char) : List (List Char) :=
  endLines (splitWhere (· == '\n') cs)

/-- Joins words by single spaces. -/
def joinWords (words : List String) : String :=
  " ".intercalate words

end Text
end TurtleGraphics
