import TurtleGraphics.Proofs.BlockGrammar

/-!
# TurtleGraphics.Proofs.BlockScan

The reader of blocks against a machine with a stack. `scan` goes over the logical lines of a program once
and keeps the lines of the blocks that are open; it builds no tree and stops at the first defect. The
reader recurses into blocks and finds a block that is never closed only when the lines run out. Both
accept the same programs, and of several defects both report the same one (`parse_agrees_with_scan`).

Reading the body of a block and scanning on from its first line is the same, if the scan has that block
on top of its stack: after the body the scan has it off the stack and is at the line where the reader
goes on (`scan_readBody`).
-/

namespace TurtleGraphics

/-- What is wrong with a program, and where. -/
structure Defect where
  code : Code
  line : Nat
  deriving DecidableEq, Repr

def Fault.defect (f : Fault) : Defect :=
  ⟨f.code, f.line⟩

namespace Program

/-! ## The scan -/

/-- The words that open blocks. -/
def openingWords : List String :=
  ["for", "loop", "when", "draw", "def"]

/-- A defect in the structure of a program, found at a line. -/
def defective {α : Type} (number : Nat) (line : Line) : Except Defect α :=
  .error ⟨⟨.program, number⟩, line.number⟩

/-- What a line does to the blocks that are open, of which the innermost is the first. -/
def scanLine (opened : List Line) (line : Line) : Except Defect (List Line) :=
  match line.words with
  | [] => .ok opened
  | word :: _ =>
    if word = "end" then
      match opened with
      | [] => defective 3 line
      | _ :: outer => .ok outer
    else if word ∈ openingWords then
      if line.words.length < 2 ∨ line.words.getLast? ≠ some "do" then defective 2 line
      else if line.words.length = 2 then defective 4 line
      else if 127 ≤ opened.length then defective 6 line
      else .ok (line :: opened)
    else if 2 ≤ line.words.length ∧ line.words.getLast? = some "do" then defective 5 line
    else .ok opened

/-- Scans lines, with some blocks open; at the end of the lines none may be. -/
def scan : List Line → List Line → Except Defect Unit
  | [], [] => .ok ()
  | opener :: _, [] => defective 1 opener
  | opened, line :: rest =>
    match scanLine opened line with
    | .error d => .error d
    | .ok opened => scan opened rest

/-- Goes on with the body of a block, if there may be one more. -/
def scanBlock (opened : List Line) (line : Line) (rest : List Line) : Except Defect Unit :=
  if 127 ≤ opened.length then defective 6 line else scan (line :: opened) rest

/-! ## Lines -/

section Lines

variable {opened : List Line} {line : Line} (rest : List Line) {word : String} {args : List String}

theorem scan_cons :
    scan opened (line :: rest) =
      match scanLine opened line with
      | .error d => .error d
      | .ok opened => scan opened rest := by
  cases opened <;> rfl

theorem scan_blank (hw : line.words = []) : scan opened (line :: rest) = scan opened rest := by
  simp only [scan_cons, scanLine, hw]

/-- A line that opens a block has the defects that the reader finds in its header. -/
theorem scan_opening (hw : line.words = word :: args) (hend : word ≠ "end")
    (hopen : word ∈ openingWords) :
    scan opened (line :: rest) =
      match headerWords line word args with
      | .error f => .error f.defect
      | .ok _ => scanBlock opened line rest := by
  simp only [scan_cons, scanLine, headerWords, scanBlock, hw, if_neg hend, if_pos hopen]
  cases args with
  | nil => rfl
  | cons arg args =>
    have hlast : (word :: arg :: args).getLast? = (arg :: args).getLast? := List.getLast?_cons_cons
    by_cases hdo : (arg :: args).getLast? = some "do"
    · cases args with
      | nil => simp [hdo, defective, Fault.defect, Fault.code, Cause.code]
      | cons next args =>
        have hlong : ¬args.length + 1 + 1 + 1 < 2 := by omega
        by_cases hfull : 127 ≤ opened.length
        · simp [hlast, hdo, hlong, hfull, defective]
        · simp [hlast, hdo, hlong, hfull]
    · simp [hlast, hdo, defective, Fault.defect, Fault.code, Cause.code]

theorem scan_call (hw : line.words = word :: args) (hend : word ≠ "end")
    (hopen : word ∉ openingWords) :
    scan opened (line :: rest) =
      if args.getLast? = some "do" then defective 5 line else scan opened rest := by
  simp only [scan_cons, scanLine, hw, if_neg hend, if_neg hopen]
  cases args with
  | nil => rfl
  | cons arg args =>
    have hlast : (word :: arg :: args).getLast? = (arg :: args).getLast? := List.getLast?_cons_cons
    by_cases hdo : (arg :: args).getLast? = some "do"
    · simp [hlast, hdo, defective]
    · simp [hlast, hdo]

end Lines

/-! ## Bodies -/

/-- The scan after a body that was read from the first lines of `ls`, with its block on top of the
stack. The body of the program itself ends with its lines. -/
def resume (opened ls : List Line) : BodyReading → Except Defect Unit
  | .error f => .error f.defect
  | .ok (_, count) =>
    match opened with
    | [] => .ok ()
    | _ :: outer => scan outer (ls.drop count)

theorem resume_consStatement (opened ls : List Line) (line : Line) (s : Statement) (r : BodyReading) :
    resume opened (line :: ls) (consStatement s r) = resume opened ls r := by
  cases r with
  | error f => rfl
  | ok reading => rfl

/-- A reader of blocks agrees with the scan, if the lines that open the blocks around are `opened`. -/
def AgreesInside (inner : Line → List Line → BodyReading) (opened : List Line) : Prop :=
  ∀ line rest, scanBlock opened line rest = resume (line :: opened) rest (inner line rest)

section Bodies

variable {inner : Line → List Line → BodyReading} {opened : List Line} {line : Line}
  {rest : List Line} {word : String} {args : List String}

theorem scan_readBody_end (hw : line.words = "end" :: args) :
    scan opened (line :: rest) =
      resume opened (line :: rest) (readBody inner opened.head? 0 (line :: rest)) := by
  simp only [scan_cons, scanLine, readBody, hw]
  cases opened with
  | nil => rfl
  | cons opener outer => rfl

variable (hrest : ∀ skip, scan opened (rest.drop skip) =
  resume opened rest (readBody inner opened.head? skip rest))

include hrest

theorem scan_readBody_blank (hw : line.words = []) :
    scan opened (line :: rest) =
      resume opened (line :: rest) (readBody inner opened.head? 0 (line :: rest)) := by
  simp only [readBody, hw]
  rw [scan_blank rest hw, resume_consStatement]
  exact hrest 0

theorem scan_readBody_opening (hinner : AgreesInside inner opened) (hw : line.words = word :: args)
    (hend : word ≠ "end") {kind : BlockKind} (hkey : BlockKind.ofKeyword? word = some kind) :
    scan opened (line :: rest) =
      resume opened (line :: rest) (readBody inner opened.head? 0 (line :: rest)) := by
  have hopen : word ∈ openingWords := Decidable.not_not.1 fun hnot => by
    rw [ofKeyword_eq_none_iff.2 hnot] at hkey
    cases hkey
  simp only [readBody, hw, hkey]
  rw [scan_opening rest hw hend hopen, if_neg (by simpa using hend)]
  cases headerWords line word args with
  | error f => rfl
  | ok names =>
    dsimp only
    rw [hinner line rest]
    cases inner line rest with
    | error f => rfl
    | ok reading =>
      obtain ⟨body, count⟩ := reading
      rw [resume_consStatement, ← hrest count]
      rfl

theorem scan_readBody_call (hw : line.words = word :: args) (hend : word ≠ "end")
    (hkey : BlockKind.ofKeyword? word = none) :
    scan opened (line :: rest) =
      resume opened (line :: rest) (readBody inner opened.head? 0 (line :: rest)) := by
  simp only [readBody, hw, hkey, beq_iff_eq, hend, if_false]
  rw [scan_call rest hw hend (ofKeyword_eq_none_iff.1 hkey)]
  by_cases hdo : args.getLast? = some "do"
  · simp only [hdo, if_true]
    rfl
  · simp only [hdo, if_false, resume_consStatement]
    exact hrest 0

end Bodies

theorem scan_readBody {inner : Line → List Line → BodyReading} {opened : List Line}
    (hinner : AgreesInside inner opened) (ls : List Line) :
    ∀ skip, scan opened (ls.drop skip) = resume opened ls (readBody inner opened.head? skip ls) := by
  -- a block already read leaves lines to skip, so the induction is for every number of them
  induction ls with
  | nil =>
    intro skip
    rw [List.drop_nil]
    cases opened with
    | nil => rfl
    | cons opener outer => rfl
  | cons line rest ih =>
    intro skip
    cases skip with
    | succ skip =>
      rw [List.drop_succ_cons, ih skip, readBody]
      cases readBody inner opened.head? skip rest with
      | error f => rfl
      | ok reading => rfl
    | zero =>
      rw [List.drop_zero]
      cases hw : line.words with
      | nil => exact scan_readBody_blank ih hw
      | cons word args =>
        by_cases hend : word = "end"
        · subst hend
          exact scan_readBody_end hw
        · cases hkey : BlockKind.ofKeyword? word with
          | some kind => exact scan_readBody_opening ih hinner hw hend hkey
          | none => exact scan_readBody_call ih hw hend hkey

/-- The reader and the scan find out at the same line that blocks nest too deep. -/
theorem agreesInside_readBlock (room : Nat) :
    ∀ opened : List Line, opened.length + room = 127 → AgreesInside (readBlock room) opened := by
  induction room with
  | zero =>
    intro opened hroom line rest
    rw [scanBlock, if_pos (by omega)]
    rfl
  | succ room ih =>
    intro opened hroom line rest
    have hinside : AgreesInside (readBlock room) (line :: opened) :=
      ih (line :: opened) (by rw [List.length_cons]; omega)
    rw [scanBlock, if_neg (by omega)]
    exact scan_readBody hinside rest 0

/-! ## Programs -/

theorem scan_lines (ls : List Line) :
    scan [] ls =
      match ofLines ls with
      | .error f => .error f.defect
      | .ok _ => .ok () := by
  have hroom : ([] : List Line).length + (maxBlockDepth - 1) = 127 := rfl
  have hscan : scan [] ls = resume [] ls (readBody (readBlock (maxBlockDepth - 1)) none 0 ls) :=
    scan_readBody (agreesInside_readBlock _ [] hroom) ls 0
  rw [hscan, ofLines]
  cases readBody (readBlock (maxBlockDepth - 1)) none 0 ls with
  | error f => rfl
  | ok reading => rfl

/-- A source text is read as a program exactly if the scan of its lines finds no defect. Otherwise the
fault has the code and the line of the defect where the scan stops. -/
theorem parse_agrees_with_scan (source : String) :
    ((∃ program, parse source = .ok program) ↔ scan [] (lines source) = .ok ()) ∧
      ∀ defect, (∃ fault, parse source = .error fault ∧ fault.defect = defect) ↔
        scan [] (lines source) = .error defect := by
  rw [scan_lines, parse]
  cases ofLines (lines source) with
  | error f => simp
  | ok program => simp

end Program
end TurtleGraphics
