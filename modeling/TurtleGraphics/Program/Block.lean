import TurtleGraphics.Fault
import TurtleGraphics.Program.Line
import TurtleGraphics.Program.Statement

/-!
# TurtleGraphics.Program.Block

From logical lines to the tree. A block runs from the line that opens it to its `end`. The body of a
block is read by recursion on its lines, with a reader for the blocks inside it; that reader exists as
long as blocks may nest deeper.
-/

namespace TurtleGraphics
namespace Program

/-- The words between the keyword of a block and `do`. -/
def headerWords (line : Line) (keyword : String) (rest : List String) : Except Fault (List String) :=
  if rest.getLast? != some "do" then .error ⟨line.number, .headerWithoutDo keyword⟩
  else if rest.dropLast.isEmpty then .error ⟨line.number, .headerEmpty keyword⟩
  else .ok rest.dropLast

/-- An unquoted argument loses a comma at its end. -/
def withoutComma (word : String) : String :=
  let cs := word.toList
  if startsWithQuote cs then word
  else if cs.getLast? == some ',' then String.ofList cs.dropLast
  else word

/-- The names in the header of a definition, in which brackets and commas count as blanks. -/
def headerNames (inner : List String) : List String :=
  let text := (Text.joinWords inner).toList.map fun c =>
    if c == '(' || c == ')' || c == ',' then ' ' else c
  (Text.fields text).map String.ofList

inductive BlockKind where
  | loop
  | when
  | define
  deriving DecidableEq, Repr

/-- The kind of block that a word opens. -/
def BlockKind.ofKeyword? : String → Option BlockKind
  | "for" => some loop
  | "loop" => some loop
  | "when" => some when
  | "draw" => some define
  | "def" => some define
  | _ => none

/-- The statement for a block with a given header and body. -/
def BlockKind.statement (kind : BlockKind) (mark : Mark) (inner : List String)
    (body : List Statement) : Statement :=
  match kind with
  | loop => .loop mark (Text.joinWords inner) body
  | when => .when mark (Text.joinWords inner) body
  | define =>
    match headerNames inner with
    | [] => .define mark "" [] body
    | name :: params => .define mark name params body

/-- A body and the number of lines it takes, the `end` that closes it included. -/
abbrev BodyReading := Except Fault (List Statement × Nat)

def Line.mark (line : Line) : Mark :=
  ⟨line.number, line.comment⟩

/-- Puts a statement, which takes one line besides those of `reading`, in front of a body. -/
def consStatement (s : Statement) (reading : BodyReading) : BodyReading :=
  match reading with
  | .error f => .error f
  | .ok (body, count) => .ok (s :: body, count + 1)

/-- The body that starts after the first `skip` lines, which belong to a block already read. `opener`
is the line that opened the body, or none for the program itself; `inner` reads the body of a block
that a line opens. -/
def readBody (inner : Line → List Line → BodyReading) (opener : Option Line) :
    Nat → List Line → BodyReading
  | _, [] =>
    match opener with
    | none => .ok ([], 0)
    | some line => .error ⟨line.number, .neverClosed (line.words.headD "")⟩
  | skip + 1, _ :: rest =>
    match readBody inner opener skip rest with
    | .error f => .error f
    | .ok (body, count) => .ok (body, count + 1)
  | 0, line :: rest =>
    match line.words with
    | [] => consStatement (.empty line.mark) (readBody inner opener 0 rest)
    | word :: args =>
      if word == "end" then
        match opener with
        | none => .error ⟨line.number, .endWithoutDo⟩
        | some _ => .ok ([], 1)
      else
        match BlockKind.ofKeyword? word with
        | some kind =>
          match headerWords line word args with
          | .error f => .error f
          | .ok names =>
            match inner line rest with
            | .error f => .error f
            | .ok (body, count) =>
              consStatement (kind.statement line.mark names body)
                (readBody inner opener count rest)
        | none =>
          if args.getLast? == some "do" then .error ⟨line.number, .opensNoBlock word⟩
          else
            consStatement (.call line.mark word (args.map withoutComma))
              (readBody inner opener 0 rest)

/-- The body of the block that `opener` opens, inside which blocks may nest `room - 1` deep. -/
def readBlock : Nat → Line → List Line → BodyReading
  | 0 => fun opener _ => .error ⟨opener.number, .blocksTooDeep⟩
  | room + 1 => fun opener rest => readBody (readBlock room) (some opener) 0 rest

/-- The program that logical lines spell. -/
def ofLines (ls : List Line) : Except Fault (List Statement) :=
  match readBody (readBlock (maxBlockDepth - 1)) none 0 ls with
  | .error f => .error f
  | .ok (body, _) => .ok body

/-- The program that a text spells. -/
def parse (source : String) : Except Fault (List Statement) :=
  ofLines (lines source)

end Program
end TurtleGraphics
