import TurtleGraphics.Proofs.StatementLines

/-!
# TurtleGraphics.Proofs.Annotation

Comments as a pass of their own. A line carries its comment into the statement that it begins. The program
is the same if the lines are read without their comments, and the finished tree is then gone through once,
each statement before those inside it, to give the first statement from each commented source line its
comment (`parse_eq_annotateAll`).

Reading does not look at comments (`ofLines_bare`), and the pass puts them where they were taken from
(`annotateAll_bareAll`), because of the statements from one line the first had the comment (`Placed`).
-/

namespace TurtleGraphics
namespace Program

open Statement (preorderAll)

/-! ## Without comments -/

def Mark.bare (k : Mark) : Mark :=
  ⟨k.line, none⟩

def Line.bare (l : Line) : Line :=
  ⟨l.number, l.words, none⟩

namespace Statement

mutual

/-- A statement without its comments. -/
def bare : Statement → Statement
  | empty mark => empty mark.bare
  | call mark name args => call mark.bare name args
  | loop mark count body => loop mark.bare count (bareAll body)
  | when mark guard body => when mark.bare guard (bareAll body)
  | define mark name params body => define mark.bare name params (bareAll body)

/-- A body without its comments. -/
def bareAll : List Statement → List Statement
  | [] => []
  | s :: rest => s.bare :: bareAll rest

end

end Statement

open Statement (bareAll)

theorem BlockKind.bare_statement (kind : BlockKind) (mark : Mark) (inner : List String)
    (body : List Statement) :
    (kind.statement mark inner body).bare = kind.statement mark.bare inner (bareAll body) := by
  cases kind with
  | loop => rfl
  | when => rfl
  | define =>
    simp only [statement]
    cases headerNames inner <;> rfl

/-! ## Reading without comments -/

def BodyReading.bare (r : BodyReading) : BodyReading :=
  r.map fun (body, count) => (bareAll body, count)

theorem consStatement_bare (s : Statement) (r : BodyReading) :
    consStatement s.bare r.bare = (consStatement s r).bare := by
  cases r <;> rfl

/-- A body is read in the same way without the comments of its lines, if the blocks inside it are. -/
theorem readBody_bare {inner : Line → List Line → BodyReading}
    (hinner : ∀ l ls, inner l.bare (ls.map Line.bare) = (inner l ls).bare) (opener : Option Line)
    (skip : Nat) (ls : List Line) :
    readBody inner (opener.map Line.bare) skip (ls.map Line.bare) =
      (readBody inner opener skip ls).bare := by
  induction ls generalizing skip with
  | nil =>
    cases opener with
    | none => rfl
    | some l => rfl
  | cons l ls ih =>
    cases skip with
    | succ skip =>
      simp only [List.map_cons, readBody, ih]
      cases readBody inner opener skip ls <;> rfl
    | zero =>
      -- the reader goes by the words of a line, and a comment only passes into the mark of a statement
      have hwords : l.bare.words = l.words := rfl
      simp only [List.map_cons, readBody, hwords]
      cases l.words with
      | nil =>
        rw [ih, ← consStatement_bare]
        rfl
      | cons word args =>
        dsimp only
        split
        · cases opener <;> rfl
        · cases BlockKind.ofKeyword? word with
          | none =>
            dsimp only
            split
            · rfl
            · rw [ih, ← consStatement_bare]
              rfl
          | some kind =>
            have hheader : headerWords l.bare word args = headerWords l word args := rfl
            dsimp only
            rw [hheader, hinner]
            cases headerWords l word args with
            | error f => rfl
            | ok names =>
              cases inner l ls with
              | error f => rfl
              | ok reading =>
                obtain ⟨body, count⟩ := reading
                have hread : BodyReading.bare (.ok (body, count)) = .ok (bareAll body, count) := rfl
                rw [hread]
                dsimp only
                rw [ih, ← consStatement_bare, BlockKind.bare_statement]
                rfl

theorem readBlock_bare (room : Nat) (l : Line) (ls : List Line) :
    readBlock room l.bare (ls.map Line.bare) = (readBlock room l ls).bare := by
  induction room generalizing l ls with
  | zero => rfl
  | succ room ih => exact readBody_bare ih (some l) 0 ls

/-- Comments have no influence on whether lines are read, and on what is read apart from them. -/
theorem ofLines_bare (ls : List Line) : ofLines (ls.map Line.bare) = (ofLines ls).map bareAll := by
  have hbody := readBody_bare (readBlock_bare (maxBlockDepth - 1)) none 0 ls
  rw [Option.map_none] at hbody
  rw [ofLines, hbody, ofLines]
  cases readBody (readBlock (maxBlockDepth - 1)) none 0 ls <;> rfl

/-! ## The pass -/

/-- The mark of a statement after the pass, and the source lines whose comments are given away by then. -/
def note (comments : List (Nat × String)) (seen : List Nat) (k : Mark) : Mark × List Nat :=
  match comments.lookup k.line with
  | none => (k, seen)
  | some text =>
    if seen.contains k.line then (k, seen) else (⟨k.line, some text⟩, k.line :: seen)

namespace Statement

mutual

/-- Gives the comments of source lines to the first statements from them. The arguments of a call are from
its line and come behind it, so none is left for them. -/
def annotate (comments : List (Nat × String)) (seen : List Nat) : Statement → Statement × List Nat
  | empty mark =>
    let (mark, seen) := note comments seen mark
    (empty mark, seen)
  | call mark name args =>
    let (mark, seen) := note comments seen mark
    (call mark name args, seen)
  | loop mark count body =>
    let (mark, seen) := note comments seen mark
    let (body, seen) := annotateAll comments seen body
    (loop mark count body, seen)
  | when mark guard body =>
    let (mark, seen) := note comments seen mark
    let (body, seen) := annotateAll comments seen body
    (when mark guard body, seen)
  | define mark name params body =>
    let (mark, seen) := note comments seen mark
    let (body, seen) := annotateAll comments seen body
    (define mark name params body, seen)

def annotateAll (comments : List (Nat × String)) (seen : List Nat) :
    List Statement → List Statement × List Nat
  | [] => ([], seen)
  | s :: rest =>
    let (s, seen) := annotate comments seen s
    let (rest, seen) := annotateAll comments seen rest
    (s :: rest, seen)

end

end Statement

open Statement (annotateAll)

/-- The marks are what the pass makes of them when their comments are taken off. -/
inductive Noted (comments : List (Nat × String)) : List Nat → List Mark → List Nat → Prop where
  | nil {seen : List Nat} : Noted comments seen [] seen
  | cons {seen later last : List Nat} {k : Mark} {ks : List Mark} :
      note comments seen k.bare = (k, later) → Noted comments later ks last →
      Noted comments seen (k :: ks) last

theorem Noted.of_append {comments : List (Nat × String)} {seen last : List Nat} {a b : List Mark}
    (h : Noted comments seen (a ++ b) last) :
    ∃ later, Noted comments seen a later ∧ Noted comments later b last := by
  induction a generalizing seen with
  | nil => exact ⟨seen, .nil, h⟩
  | cons k a ih =>
    cases h with
    | cons hk hrest =>
      obtain ⟨later, ha, hb⟩ := ih hrest
      exact ⟨later, .cons hk ha, hb⟩

namespace Statement

variable {comments : List (Nat × String)} {seen later last : List Nat} {s : Statement}

theorem annotate_bare_of_leaf (h : s.body? = none)
    (hk : note comments seen s.mark.bare = (s.mark, later)) :
    s.bare.annotate comments seen = (s, later) := by
  obtain ⟨mark, rfl⟩ | ⟨mark, name, args, rfl⟩ := eq_of_leaf h <;>
    · simp only [Statement.mark] at hk
      simp only [bare, annotate, hk]

theorem annotate_bare_of_block {body : List Statement} (h : s.body? = some body)
    (hk : note comments seen s.mark.bare = (s.mark, later))
    (hbody : annotateAll comments later (bareAll body) = (body, last)) :
    s.bare.annotate comments seen = (s, last) := by
  obtain ⟨mark, count, rfl⟩ | ⟨mark, guard, rfl⟩ | ⟨mark, name, params, rfl⟩ := eq_of_block h <;>
    · simp only [Statement.mark] at hk
      simp only [bare, annotate, hk, hbody]

end Statement

theorem annotateAll_bareAll {comments : List (Nat × String)} (program : List Statement) :
    ∀ {seen last : List Nat}, Noted comments seen ((preorderAll program).map Statement.mark) last →
      annotateAll comments seen (bareAll program) = (program, last) := by
  induction program using Statement.body_induction with
  | nil =>
    intro seen last h
    cases h
    rfl
  | leaf s rest hleaf ih =>
    intro seen last h
    rw [preorderAll, Statement.preorder_of_leaf hleaf] at h
    cases h with
    | cons hk hrest =>
      have hs := Statement.annotate_bare_of_leaf hleaf hk
      simp only [bareAll, annotateAll, hs, ih hrest]
  | block s body rest hblock ihb ihr =>
    intro seen last h
    rw [preorderAll, Statement.preorder_of_block hblock, List.map_append] at h
    cases h with
    | cons hk htail =>
      obtain ⟨later, hbody, hrest⟩ := htail.of_append
      have hs := Statement.annotate_bare_of_block hblock hk (ihb hbody)
      simp only [bareAll, annotateAll, hs, ihr hrest]

/-! ## Comments where they were -/

theorem mem_of_lookup {comments : List (Nat × String)} {line : Nat} {text : String}
    (h : comments.lookup line = some text) : (line, text) ∈ comments := by
  obtain ⟨front, back, rfl, -⟩ := List.lookup_eq_some_iff.1 h
  simp

theorem isSome_lookup_of_mem {comments : List (Nat × String)} {line : Nat} {text : String}
    (h : (line, text) ∈ comments) : (comments.lookup line).isSome = true := by
  rw [Option.isSome_iff_ne_none, Ne, List.lookup_eq_none_iff]
  intro hnone
  simpa using hnone _ h

/-- The lines seen are the commented ones of the statements before. -/
def Seen (comments : List (Nat × String)) (front : List Mark) (seen : List Nat) : Prop :=
  ∀ line, line ∈ seen ↔ (comments.lookup line).isSome = true ∧ ∃ k ∈ front, k.line = line

namespace Seen

variable {comments : List (Nat × String)} {front : List Mark} {seen : List Nat} {k : Mark}

theorem mem_of_mem (h : Seen comments front seen) (hk : k ∈ front)
    (hsome : (comments.lookup k.line).isSome = true) : k.line ∈ seen :=
  (h k.line).2 ⟨hsome, k, hk, rfl⟩

theorem concat_of_mem (h : Seen comments front seen)
    (hk : (comments.lookup k.line).isSome = true → k.line ∈ seen) :
    Seen comments (front ++ [k]) seen := by
  intro line
  constructor
  · intro hline
    obtain ⟨hsome, r, hr, hrline⟩ := (h line).1 hline
    exact ⟨hsome, r, List.mem_append_left _ hr, hrline⟩
  · rintro ⟨hsome, r, hr, rfl⟩
    rcases List.mem_append.1 hr with hr | hr
    · exact h.mem_of_mem hr hsome
    · obtain rfl := List.mem_singleton.1 hr
      exact hk hsome

theorem concat_cons (h : Seen comments front seen) (hk : (comments.lookup k.line).isSome = true) :
    Seen comments (front ++ [k]) (k.line :: seen) := by
  intro line
  constructor
  · intro hline
    rcases List.mem_cons.1 hline with rfl | hline
    · exact ⟨hk, k, List.mem_append_right _ (List.mem_singleton.2 rfl), rfl⟩
    · obtain ⟨hsome, r, hr, hrline⟩ := (h line).1 hline
      exact ⟨hsome, r, List.mem_append_left _ hr, hrline⟩
  · rintro ⟨hsome, r, hr, rfl⟩
    rcases List.mem_append.1 hr with hr | hr
    · exact List.mem_cons_of_mem _ (h.mem_of_mem hr hsome)
    · rw [List.mem_singleton.1 hr]
      exact List.mem_cons_self

end Seen

/-- The pass gives a statement the comment that it had, if it had that of its line and none was from this
line before. -/
theorem note_bare {comments : List (Nat × String)} {front : List Mark} {seen : List Nat} {k : Mark}
    (hk : ∀ text, k.comment = some text ↔
      (k.line, text) ∈ comments ∧ ∀ r ∈ front, r.line ≠ k.line)
    (hseen : Seen comments front seen) :
    ∃ later, note comments seen k.bare = (k, later) ∧ Seen comments (front ++ [k]) later := by
  obtain ⟨line, comment⟩ := k
  cases hlookup : comments.lookup line with
  | none =>
    obtain rfl : comment = none := by
      refine Option.eq_none_iff_forall_ne_some.2 fun text htext => ?_
      have hsome := isSome_lookup_of_mem ((hk text).1 htext).1
      rw [hlookup] at hsome
      cases hsome
    refine ⟨seen, ?_, hseen.concat_of_mem fun hsome => ?_⟩
    · simp only [note, Mark.bare, hlookup]
    · rw [hlookup] at hsome
      cases hsome
  | some text =>
    have hsome : (comments.lookup line).isSome = true := by rw [hlookup]; rfl
    by_cases hmem : line ∈ seen
    · -- the comment went to a statement before
      obtain rfl : comment = none := by
        refine Option.eq_none_iff_forall_ne_some.2 fun text htext => ?_
        obtain ⟨-, r, hr, hline⟩ := (hseen line).1 hmem
        exact ((hk text).1 htext).2 r hr hline
      refine ⟨seen, ?_, hseen.concat_of_mem fun _ => hmem⟩
      simp only [note, Mark.bare, hlookup]
      exact if_pos (List.contains_iff_mem.2 hmem)
    · have hfirst : ∀ r ∈ front, r.line ≠ line := by
        rintro r hr rfl
        exact hmem (hseen.mem_of_mem hr hsome)
      obtain rfl : comment = some text := (hk text).2 ⟨mem_of_lookup hlookup, hfirst⟩
      refine ⟨line :: seen, ?_, hseen.concat_cons hsome⟩
      simp only [note, Mark.bare, hlookup]
      exact if_neg fun hcontains => hmem (List.contains_iff_mem.1 hcontains)

theorem exists_noted {comments : List (Nat × String)} {front marks : List Mark} {seen : List Nat}
    (hplaced : Placed comments (front ++ marks)) (hseen : Seen comments front seen) :
    ∃ last, Noted comments seen marks last := by
  induction marks generalizing front seen with
  | nil => exact ⟨seen, .nil⟩
  | cons k marks ih =>
    obtain ⟨later, hnote, hlater⟩ := note_bare (hplaced front k marks rfl) hseen
    rw [List.append_cons] at hplaced
    obtain ⟨last, hlast⟩ := ih hplaced hlater
    exact ⟨last, .cons hnote hlast⟩

/-- Comments can be put into the finished tree: a text is read as its lines without comments are, and then
the first statement from each commented source line gets the comment. -/
theorem parse_eq_annotateAll (source : String) :
    parse source = (ofLines ((lines source).map Line.bare)).map fun program =>
      (annotateAll (comments source) [] program).1 := by
  rw [ofLines_bare, ← parse]
  cases hparse : parse source with
  | error f => rfl
  | ok program =>
    have hnone : Seen (comments source) [] [] := by simp [Seen]
    obtain ⟨last, hnoted⟩ := exists_noted (placed_of_parse hparse) hnone
    simp only [Except.map, annotateAll_bareAll program hnoted]

end Program
end TurtleGraphics
