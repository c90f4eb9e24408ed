import TurtleGraphics.Text.Split

/-!
# TurtleGraphics.Program.Line

Programs as logical lines. A source line is cut at its first `#` outside double quotes into code and
comment. The code is cut into words, a text in double quotes being one word. Logical lines are runs of
words: `end` always stands alone on one, and `do` always ends one, so `for 3 do fw 1 end` is three. A
source line with a comment and no code is a logical line without words, and a comment belongs to the
first logical line of its source line other than `end`.
-/

namespace TurtleGraphics
namespace Program

/-! ## Words -/

def startsWithQuote (cs : List Char) : Bool :=
  cs.head? == some '"'

def endsWithQuote (cs : List Char) : Bool :=
  cs.getLast? == some '"'

/-- Whether a quoted text starts with this field and does not end with it. -/
def opensQuote (field : List Char) : Bool :=
  startsWithQuote field && !(decide (1 < field.length) && endsWithQuote field)

/-- Joins the fields of a quoted text by single spaces. `phrase` holds what was read of one that is
open; an unfinished one runs to the end. -/
def joinQuoted : Option (List Char) → List (List Char) → List (List Char)
  | none, [] => []
  | some phrase, [] => [phrase]
  | none, field :: fields =>
    if opensQuote field then joinQuoted (some field) fields
    else field :: joinQuoted none fields
  | some phrase, field :: fields =>
    let longer := phrase ++ ' ' :: field
    if endsWithQuote field then longer :: joinQuoted none fields
    else joinQuoted (some longer) fields

/-- The words of a piece of code. -/
def words (code : List Char) : List String :=
  (joinQuoted none (Text.fields code)).map String.ofList

/-! ## Comments -/

/-- The code before the first `#` outside double quotes, and the text after it. `quoted` says whether
the text starts inside quotes. -/
def cutComment : Bool → List Char → List Char × Option (List Char)
  | _, [] => ([], none)
  | quoted, c :: cs =>
    if c == '#' && !quoted then ([], some cs)
    else
      let (code, comment) := cutComment (if c == '"' then !quoted else quoted) cs
      (c :: code, comment)

/-- The code of a source line, trimmed. -/
def codeOf (raw : List Char) : List Char :=
  Text.trim (cutComment false raw).1

/-- The comment of a source line, trimmed. -/
def commentOf (raw : List Char) : Option String :=
  (cutComment false raw).2.map fun text => String.ofList (Text.trim text)

/-! ## Logical lines -/

structure Line where
  number : Nat
  words : List String
  comment : Option String
  deriving DecidableEq, Repr

/-- Cuts words into runs: `end` is a run of its own, and `do` ends one. `run` is what was read of the
current run. -/
def runs : List String → List String → List (List String)
  | run, [] => if run.isEmpty then [] else [run]
  | run, word :: rest =>
    if word == "end" then
      if run.isEmpty then ["end"] :: runs [] rest else run :: ["end"] :: runs [] rest
    else if word == "do" then (run ++ ["do"]) :: runs [] rest
    else runs (run ++ [word]) rest

/-- Numbers the runs of one source line; the first that is not `end` takes the comment. -/
def numberRuns (number : Nat) : Option String → List (List String) → List Line
  | _, [] => []
  | comment, run :: rest =>
    if run == ["end"] then ⟨number, run, none⟩ :: numberRuns number comment rest
    else ⟨number, run, comment⟩ :: numberRuns number none rest

/-- The logical lines of one source line. -/
def linesOf (number : Nat) (raw : List Char) : List Line :=
  match words (codeOf raw), commentOf raw with
  | [], some comment => [⟨number, [], some comment⟩]
  | ws, comment => numberRuns number comment (runs [] ws)

/-- The logical lines of source lines numbered from `number` on. -/
def linesFrom (number : Nat) : List (List Char) → List Line
  | [] => []
  | raw :: rest => linesOf number raw ++ linesFrom (number + 1) rest

/-- The logical lines of a source text; the first source line has number 1. -/
def lines (source : String) : List Line :=
  linesFrom 1 (Text.lines source.toList)

/-- The comments of source lines numbered from `number` on. -/
def commentsFrom (number : Nat) : List (List Char) → List (Nat × String)
  | [] => []
  | raw :: rest =>
    match commentOf raw with
    | some comment => (number, comment) :: commentsFrom (number + 1) rest
    | none => commentsFrom (number + 1) rest

/-- The commented source lines with their comments. -/
def comments (source : String) : List (Nat × String) :=
  commentsFrom 1 (Text.lines source.toList)

end Program
end TurtleGraphics
