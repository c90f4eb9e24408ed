import TurtleGraphics.Program.Layout
import TurtleGraphics.Proofs.BlockGrammar
import TurtleGraphics.Proofs.LogicalLines

/-!
# TurtleGraphics.Proofs.PrintedLines

Reading printed lines. A statement is readable (`Statement.Readable`) when the words of its heading are
again the words of a first line of it, and no quote or `#` in the heading blurs where the comment
starts. `parse_render_of_readable` lifts this from lines to programs: if every statement is readable,
the text of the program is read as that program, up to line numbers.
-/

namespace TurtleGraphics
namespace Program

open Text (isBlank IsLine)

/-! ## Trees -/

namespace Statement

mutual

/-- A statement and all statements inside it, each before those inside it. -/
def preorder : Statement → List Statement
  | empty mark => [empty mark]
  | call mark name args => [call mark name args]
  | loop mark count body => loop mark count body :: preorderAll body
  | when mark guard body => when mark guard body :: preorderAll body
  | define mark name params body => define mark name params body :: preorderAll body

/-- All statements of a body, at any depth. -/
def preorderAll : List Statement → List Statement
  | [] => []
  | s :: rest => s.preorder ++ preorderAll rest

end

mutual

/-- A statement without its line numbers. -/
def unnumbered : Statement → Statement
  | empty mark => empty ⟨0, mark.comment⟩
  | call mark name args => call ⟨0, mark.comment⟩ name args
  | loop mark count body => loop ⟨0, mark.comment⟩ count (unnumberedAll body)
  | when mark guard body => when ⟨0, mark.comment⟩ guard (unnumberedAll body)
  | define mark name params body => define ⟨0, mark.comment⟩ name params (unnumberedAll body)

/-- A body without its line numbers. -/
def unnumberedAll : List Statement → List Statement
  | [] => []
  | s :: rest => s.unnumbered :: unnumberedAll rest

end

/-- The first line of a statement as it is printed. -/
def firstLine (depth : Nat) (s : Statement) : String :=
  indentation depth ++ withComment s.heading s.comment

/-- The same heading with another mark and, if there is a body, another one. -/
def place (mark : Mark) (body : List Statement) : Statement → Statement
  | empty _ => empty mark
  | call _ name args => call mark name args
  | loop _ count _ => loop mark count body
  | when _ guard _ => when mark guard body
  | define _ name params _ => define mark name params body

theorem preorder_of_leaf {s : Statement} (h : s.body? = none) : s.preorder = [s] := by
  obtain ⟨mark, rfl⟩ | ⟨mark, name, args, rfl⟩ := eq_of_leaf h <;> rfl

theorem preorder_of_block {s : Statement} {body : List Statement} (h : s.body? = some body) :
    s.preorder = s :: preorderAll body := by
  obtain ⟨mark, count, rfl⟩ | ⟨mark, guard, rfl⟩ | ⟨mark, name, params, rfl⟩ := eq_of_block h <;> rfl

theorem layout_of_leaf {s : Statement} (h : s.body? = none) (depth : Nat) :
    s.layout depth = [s.firstLine depth] := by
  obtain ⟨mark, rfl⟩ | ⟨mark, name, args, rfl⟩ := eq_of_leaf h <;> rfl

theorem layout_of_block {s : Statement} {body : List Statement} (h : s.body? = some body)
    (depth : Nat) :
    s.layout depth =
      s.firstLine depth :: (layoutAll (depth + 1) body ++ [indentation depth ++ "end"]) := by
  obtain ⟨mark, count, rfl⟩ | ⟨mark, guard, rfl⟩ | ⟨mark, name, params, rfl⟩ := eq_of_block h <;> rfl

@[simp] theorem mark_place (mark : Mark) (body : List Statement) (s : Statement) :
    (s.place mark body).mark = mark := by
  cases s <;> rfl

theorem body?_place_of_leaf {s : Statement} (h : s.body? = none) (mark : Mark)
    (body : List Statement) : (s.place mark body).body? = none := by
  obtain ⟨mark, rfl⟩ | ⟨mark, name, args, rfl⟩ := eq_of_leaf h <;> rfl

theorem body?_place_of_block {s : Statement} {inside : List Statement} (h : s.body? = some inside)
    (mark : Mark) (body : List Statement) : (s.place mark body).body? = some body := by
  obtain ⟨mark, count, rfl⟩ | ⟨mark, guard, rfl⟩ | ⟨mark, name, params, rfl⟩ := eq_of_block h <;> rfl

theorem unnumbered_place_of_leaf {s : Statement} (h : s.body? = none) (number : Nat)
    (body : List Statement) : (s.place ⟨number, s.comment⟩ body).unnumbered = s.unnumbered := by
  obtain ⟨mark, rfl⟩ | ⟨mark, name, args, rfl⟩ := eq_of_leaf h <;> rfl

theorem unnumbered_place_of_block {s : Statement} {inside body : List Statement}
    (h : s.body? = some inside) (number : Nat) (hb : unnumberedAll body = unnumberedAll inside) :
    (s.place ⟨number, s.comment⟩ body).unnumbered = s.unnumbered := by
  obtain ⟨mark, count, rfl⟩ | ⟨mark, guard, rfl⟩ | ⟨mark, name, params, rfl⟩ := eq_of_block h <;>
    simp [place, unnumbered, hb, comment, Statement.mark]

theorem heading_unnumbered (s : Statement) : s.unnumbered.heading = s.heading := by
  cases s <;> rfl

theorem comment_unnumbered (s : Statement) : s.unnumbered.comment = s.comment := by
  cases s <;> rfl

theorem firstLine_unnumbered (depth : Nat) (s : Statement) :
    s.unnumbered.firstLine depth = s.firstLine depth := by
  rw [firstLine, firstLine, heading_unnumbered, comment_unnumbered]

theorem body?_unnumbered (s : Statement) : s.unnumbered.body? = s.body?.map unnumberedAll := by
  cases s <;> rfl

/-- Line numbers are not printed. -/
theorem layoutAll_unnumberedAll (program : List Statement) :
    ∀ depth, layoutAll depth (unnumberedAll program) = layoutAll depth program := by
  induction program using body_induction with
  | nil => intro depth; rfl
  | leaf s rest hb ih =>
    intro depth
    have hb' : s.unnumbered.body? = none := by rw [body?_unnumbered, hb]; rfl
    rw [unnumberedAll, layoutAll, layoutAll, layout_of_leaf hb, layout_of_leaf hb',
      firstLine_unnumbered, ih]
  | block s body rest hb ihb ih =>
    intro depth
    have hb' : s.unnumbered.body? = some (unnumberedAll body) := by rw [body?_unnumbered, hb]; rfl
    rw [unnumberedAll, layoutAll, layoutAll, layout_of_block hb, layout_of_block hb',
      firstLine_unnumbered, ih, ihb]

theorem nestingAll_unnumberedAll (program : List Statement) :
    nestingAll (unnumberedAll program) = nestingAll program := by
  induction program using body_induction with
  | nil => rfl
  | leaf s rest hb ih =>
    have hb' : s.unnumbered.body? = none := by rw [body?_unnumbered, hb]; rfl
    rw [unnumberedAll, nestingAll, nestingAll, nesting_of_leaf hb, nesting_of_leaf hb', ih]
  | block s body rest hb ihb ih =>
    have hb' : s.unnumbered.body? = some (unnumberedAll body) := by rw [body?_unnumbered, hb]; rfl
    rw [unnumberedAll, nestingAll, nestingAll, nesting_of_block hb, nesting_of_block hb', ih, ihb]

end Statement

theorem Heads.place {ws : List String} {s : Statement} (h : Heads ws s) (mark : Mark)
    (body : List Statement) : Heads ws (s.place mark body) := by
  cases h with
  | empty _ => exact .empty mark
  | call _ hend hkey hdo => exact .call mark hend hkey hdo
  | @block mark' keyword kind inner body' hkey hne =>
    have : (kind.statement mark' inner body').place mark body = kind.statement mark inner body := by
      cases kind with
      | loop => rfl
      | when => rfl
      | define => simp only [BlockKind.statement]; split <;> rfl
    rw [this]
    exact .block mark body hkey hne

/-! ## Lines with comments -/

theorem toList_indentation (depth : Nat) :
    (indentation depth).toList = List.replicate (2 * depth) ' ' := by
  simp [indentation]

theorem isBlank_of_mem_indentation (depth : Nat) :
    ∀ c ∈ (indentation depth).toList, isBlank c = true := by
  intro c hc
  rw [toList_indentation] at hc
  rw [List.eq_of_mem_replicate hc]
  rfl

theorem words_codeOf_indented (depth : Nat) (t : String) :
    words (codeOf (indentation depth ++ t).toList) = words (cutComment false t.toList).1 := by
  rw [String.toList_append, words_codeOf_blanks_append (isBlank_of_mem_indentation depth), codeOf,
    words_trim]

theorem commentOf_indented (depth : Nat) (t : String) :
    commentOf (indentation depth ++ t).toList = commentOf t.toList := by
  rw [String.toList_append, commentOf_blanks_append (isBlank_of_mem_indentation depth)]

/-- A comment stands behind the heading and at most one space, and its text behind blanks. -/
theorem toList_withComment_some (heading text : String) :
    ∃ gap rest, (withComment heading (some text)).toList = heading.toList ++ (gap ++ '#' :: rest) ∧
      (gap = [' '] ∨ gap = [] ∧ heading = "") ∧ (rest = ' ' :: text.toList ∨ rest = text.toList) := by
  by_cases hh : heading = ""
  · by_cases ht : text = ""
    · exact ⟨[], [], by simp [withComment, hh, ht], .inr ⟨rfl, hh⟩, .inr (by simp [ht])⟩
    · exact ⟨[], ' ' :: text.toList, by simp [withComment, hh, ht], .inr ⟨rfl, hh⟩, .inl rfl⟩
  · by_cases ht : text = ""
    · exact ⟨[' '], [], by simp [withComment, hh, ht], .inl rfl, .inr (by simp [ht])⟩
    · exact ⟨[' '], ' ' :: text.toList, by simp [withComment, hh, ht], .inl rfl, .inl rfl⟩

section PrintedLine

variable {heading : String} {comment : Option String}

/-- The code and the comment of a printed line, if nothing in the heading hides where the comment
starts. -/
theorem cutComment_printed (hbare : (cutComment false heading.toList).2 = none)
    (hout : comment.isSome → quotedAfter false heading.toList = false) :
    ∃ gap : List Char, (∀ c ∈ gap, isBlank c = true) ∧
      (cutComment false (withComment heading comment).toList).1 = heading.toList ++ gap ∧
      (∀ text, comment = some text →
        ∃ rest, (cutComment false (withComment heading comment).toList).2 = some rest ∧
          (rest = ' ' :: text.toList ∨ rest = text.toList)) ∧
      (comment = none → (cutComment false (withComment heading comment).toList).2 = none) := by
  cases comment with
  | none =>
    refine ⟨[], by simp, ?_, by simp, fun _ => hbare⟩
    simpa [withComment] using cutComment_fst_of_none hbare
  | some text =>
    obtain ⟨gap, rest, hl, hgap, hrest⟩ := toList_withComment_some heading text
    have hcut : cutComment false (gap ++ '#' :: rest) = (gap, some rest) := by
      rcases hgap with rfl | ⟨rfl, -⟩ <;> rfl
    have hall := cutComment_append hbare (gap ++ '#' :: rest)
    rw [hout rfl, hcut] at hall
    refine ⟨gap, ?_, by rw [hl, hall], ?_, by simp⟩
    · rcases hgap with rfl | ⟨rfl, -⟩
      · simp only [List.mem_singleton, forall_eq]; rfl
      · simp
    · intro text' ht
      cases ht
      exact ⟨rest, by rw [hl, hall], hrest⟩

theorem words_codeOf_printed (hbare : (cutComment false heading.toList).2 = none)
    (hout : comment.isSome → quotedAfter false heading.toList = false) (depth : Nat) :
    words (codeOf (indentation depth ++ withComment heading comment).toList) =
      words heading.toList := by
  obtain ⟨gap, hgap, hcode, -, -⟩ := cutComment_printed hbare hout
  rw [words_codeOf_indented, hcode, words, Text.fields_append_blanks hgap, words]

theorem commentOf_printed (hbare : (cutComment false heading.toList).2 = none)
    (hout : comment.isSome → quotedAfter false heading.toList = false)
    (htidy : ∀ text, comment = some text → Tidy text) (depth : Nat) :
    commentOf (indentation depth ++ withComment heading comment).toList = comment := by
  obtain ⟨-, -, -, hsome, hnone⟩ := cutComment_printed hbare hout
  rw [commentOf_indented, commentOf]
  cases comment with
  | none => rw [hnone rfl]; rfl
  | some text =>
    obtain ⟨rest, hr, hrest⟩ := hsome text rfl
    have htrim : Text.trim rest = text.toList := by
      rcases hrest with rfl | rfl
      · rw [Text.trim_space_cons, (htidy text rfl).1]
      · exact (htidy text rfl).1
    rw [hr]
    simp [htrim]

theorem isLine_printed (hspaced : ∀ c ∈ heading.toList, c = ' ' ∨ isBlank c = false)
    (htidy : ∀ text, comment = some text → Tidy text) (depth : Nat) :
    IsLine (indentation depth ++ withComment heading comment).toList := by
  have hok : ∀ c ∈ (indentation depth).toList ++ heading.toList, c = ' ' ∨ isBlank c = false := by
    intro c hc
    rcases List.mem_append.1 hc with hc | hc
    · rw [toList_indentation] at hc
      exact .inl (List.eq_of_mem_replicate hc)
    · exact hspaced c hc
  have hblank : ∀ c, isBlank c = true → c ≠ ' ' → c ∉ (indentation depth).toList ++ heading.toList := by
    intro c hb hs hc
    rcases hok c hc with h | h
    · exact hs h
    · rw [hb] at h; cases h
  have hn := hblank '\n' rfl (by decide)
  have hr := hblank '\r' rfl (by decide)
  rw [String.toList_append]
  cases comment with
  | none =>
    refine ⟨hn, fun h => hr ?_⟩
    exact List.mem_of_getLast? h
  | some text =>
    obtain ⟨gap, rest, hl, hgap, hrest⟩ := toList_withComment_some heading text
    obtain ⟨htrim, hfeed⟩ := htidy text rfl
    rw [hl]
    have hgapn : '\n' ∉ gap := by rcases hgap with rfl | ⟨rfl, -⟩ <;> decide
    have hrestn : '\n' ∉ rest := by rcases hrest with rfl | rfl <;> simpa using hfeed
    constructor
    · simp only [List.mem_append, List.mem_cons, not_or] at hn ⊢
      exact ⟨hn.1, hn.2, hgapn, by decide, hrestn⟩
    · -- the last character is that of the comment, or what stands in front of an empty one
      have htext : text.toList.getLast? ≠ some '\r' := by
        intro h
        cases (htidy text rfl).not_isBlank_of_getLast h
      have hlast : ('#' :: rest).getLast? ≠ some '\r' := by
        rcases hrest with rfl | rfl
        · cases hg : text.toList.getLast? <;> simp_all [List.getLast?_cons]
        · cases hg : text.toList.getLast? <;> simp_all [List.getLast?_cons]
      rw [List.getLast?_append, List.getLast?_append, List.getLast?_append]
      cases hg : ('#' :: rest).getLast? with
      | none => simp at hg
      | some c => simpa [hg] using hlast

end PrintedLine

/-! ## Statements -/

/-- The first line of a statement is printed on one line. -/
structure Statement.Printable (s : Statement) : Prop where
  spaced : ∀ c ∈ s.heading.toList, c = ' ' ∨ isBlank c = false
  tidy : ∀ text, s.comment = some text → Tidy text

/-- The first line of a statement is read as such. -/
structure Statement.Readable (s : Statement) : Prop extends s.Printable where
  bare : (cutComment false s.heading.toList).2 = none
  outside : s.comment.isSome → quotedAfter false s.heading.toList = false
  heads : Heads (words s.heading.toList) s
  run : words s.heading.toList ≠ [] → IsRun (words s.heading.toList)
  commented : words s.heading.toList = [] → s.comment.isSome

theorem Heads.ne_end {ws : List String} {s : Statement} (h : Heads ws s) : ws ≠ ["end"] := by
  intro he
  cases h with
  | empty mark => cases he
  | call mark hend hkey hdo => exact hend (List.cons.inj he).1
  | block mark body hkey hne => simp at he

namespace Statement

theorem Printable.isLine {s : Statement} (h : s.Printable) (depth : Nat) :
    IsLine (s.firstLine depth).toList :=
  isLine_printed h.spaced h.tidy depth

theorem Readable.linesOf_firstLine {s : Statement} (h : s.Readable) (number depth : Nat) :
    linesOf number (s.firstLine depth).toList =
      [⟨number, words s.heading.toList, s.comment⟩] := by
  have hwords : words (codeOf (s.firstLine depth).toList) = words s.heading.toList :=
    words_codeOf_printed h.bare h.outside depth
  have hcomment : commentOf (s.firstLine depth).toList = s.comment :=
    commentOf_printed h.bare h.outside h.tidy depth
  by_cases hw : words s.heading.toList = []
  · obtain ⟨text, ht⟩ := Option.isSome_iff_exists.1 (h.commented hw)
    rw [linesOf_of_comment (hwords.trans hw) (hcomment.trans ht), hw, ht]
  · have hrun := h.run hw
    have hend := h.heads.ne_end
    rw [← hwords] at hrun hend
    rw [linesOf_of_isRun hrun hend, hwords, hcomment]

end Statement

theorem isLine_end (depth : Nat) : IsLine (indentation depth ++ "end").toList := by
  refine @isLine_printed "end" none ?_ ?_ depth
  · exact Text.forall_mem_of_all (by decide)
  · simp

theorem linesOf_end (number depth : Nat) :
    linesOf number (indentation depth ++ "end").toList = [⟨number, ["end"], none⟩] := by
  have hwords := @words_codeOf_printed "end" none (by decide) (by simp) depth
  have hcomment := @commentOf_printed "end" none (by decide) (by simp) (by simp) depth
  have hend : words "end".toList = ["end"] := by decide
  rw [withComment] at hwords hcomment
  rw [linesOf_of_code (by rw [hwords, hend]; simp), hwords, hcomment, hend]
  rfl

theorem forall_mem_layoutAll {P : String → Prop} (hend : ∀ depth, P (indentation depth ++ "end"))
    {program : List Statement} :
    (∀ s ∈ Statement.preorderAll program, ∀ depth, P (s.firstLine depth)) →
      ∀ depth, ∀ l ∈ Statement.layoutAll depth program, P l := by
  induction program using Statement.body_induction with
  | nil => intro _ depth l hl; cases hl
  | leaf s rest hb ih =>
    intro h depth l hl
    rw [Statement.preorderAll, Statement.preorder_of_leaf hb] at h
    rw [Statement.layoutAll, Statement.layout_of_leaf hb] at hl
    rcases List.mem_append.1 hl with hl | hl
    · rw [List.mem_singleton.1 hl]
      exact h s (by simp) depth
    · exact ih (fun x hx => h x (by simp [hx])) depth l hl
  | block s body rest hb ihb ih =>
    intro h depth l hl
    rw [Statement.preorderAll, Statement.preorder_of_block hb] at h
    rw [Statement.layoutAll, Statement.layout_of_block hb] at hl
    simp only [List.cons_append, List.append_assoc, List.mem_cons, List.mem_append,
      List.not_mem_nil, false_or] at hl
    rcases hl with rfl | hl | rfl | hl
    · exact h s (by simp) depth
    · exact ihb (fun x hx => h x (by simp [hx])) (depth + 1) l hl
    · exact hend depth
    · exact ih (fun x hx => h x (by simp [hx])) depth l hl

theorem lines_render {program : List Statement}
    (h : ∀ s ∈ Statement.preorderAll program, s.Printable) :
    lines (render program) = linesFrom 1 ((Statement.layoutAll 0 program).map String.toList) := by
  have hl : ∀ l ∈ (Statement.layoutAll 0 program).map String.toList, IsLine l := by
    intro l hl
    obtain ⟨t, ht, rfl⟩ := List.mem_map.1 hl
    exact forall_mem_layoutAll (P := fun l => IsLine l.toList) isLine_end
      (fun s hs depth => (h s hs).isLine depth) 0 t ht
  have htext : (render program).toList =
      ((Statement.layoutAll 0 program).map String.toList).flatMap (· ++ ['\n']) := by
    simp [render, List.flatMap_map]
  rw [lines, htext, Text.lines_unlines hl]

/-! ## Programs -/

open Statement (preorderAll layoutAll unnumberedAll nestingAll)

theorem spells_layoutAll {program : List Statement} :
    (∀ s ∈ preorderAll program, s.Readable) →
      ∀ number depth, ∃ again,
        Spells (linesFrom number ((layoutAll depth program).map String.toList)) again ∧
          unnumberedAll again = unnumberedAll program := by
  induction program using Statement.body_induction with
  | nil => intro _ number depth; exact ⟨[], .nil, rfl⟩
  | leaf s rest hb ih =>
    intro h number depth
    rw [preorderAll, Statement.preorder_of_leaf hb] at h
    have hs := h s (by simp)
    obtain ⟨again, hsp, heq⟩ := ih (fun x hx => h x (by simp [hx])) (number + 1) depth
    refine ⟨s.place ⟨number, s.comment⟩ [] :: again, ?_, ?_⟩
    · rw [layoutAll, Statement.layout_of_leaf hb, List.singleton_append, List.map_cons, linesFrom,
        hs.linesOf_firstLine]
      exact .leaf (hs.heads.place _ _) (by simp [Line.mark]) (Statement.body?_place_of_leaf hb _ _) hsp
    · rw [unnumberedAll, unnumberedAll, Statement.unnumbered_place_of_leaf hb, heq]
  | block s body rest hb ihb ih =>
    intro h number depth
    rw [preorderAll, Statement.preorder_of_block hb] at h
    have hs := h s (by simp)
    obtain ⟨inside, hin, hineq⟩ := ihb (fun x hx => h x (by simp [hx])) (number + 1) (depth + 1)
    obtain ⟨again, hsp, heq⟩ := ih (fun x hx => h x (by simp [hx]))
      (number + 1 + (layoutAll (depth + 1) body).length + 1) depth
    refine ⟨s.place ⟨number, s.comment⟩ inside :: again, ?_, ?_⟩
    · rw [layoutAll, Statement.layout_of_block hb, List.cons_append, List.append_assoc,
        List.singleton_append, List.map_cons, linesFrom, hs.linesOf_firstLine, List.map_append,
        linesFrom_append, List.map_cons, linesFrom, linesOf_end, List.length_map]
      exact .block (hs.heads.place _ _) (by simp [Line.mark]) (Statement.body?_place_of_block hb _ _)
        hin rfl hsp
    · rw [unnumberedAll, unnumberedAll, Statement.unnumbered_place_of_block hb number hineq, heq]

/-- The text of a program of readable statements is read as that program, up to line numbers. -/
theorem parse_render_of_readable {program : List Statement}
    (h : ∀ s ∈ preorderAll program, s.Readable) (hn : nestingAll program < maxBlockDepth) :
    ∃ again, parse (render program) = .ok again ∧ unnumberedAll again = unnumberedAll program := by
  obtain ⟨again, hsp, heq⟩ := spells_layoutAll h 1 0
  refine ⟨again, ?_, heq⟩
  rw [parse, lines_render fun s hs => (h s hs).toPrintable]
  refine ofLines_eq_ok_iff.2 ⟨hsp, ?_⟩
  rw [← Statement.nestingAll_unnumberedAll, heq, Statement.nestingAll_unnumberedAll]
  exact hn

theorem render_eq_of_unnumberedAll {a b : List Statement} (h : unnumberedAll a = unnumberedAll b) :
    render a = render b := by
  rw [render, render, ← Statement.layoutAll_unnumberedAll a, h, Statement.layoutAll_unnumberedAll]

end Program
end TurtleGraphics
