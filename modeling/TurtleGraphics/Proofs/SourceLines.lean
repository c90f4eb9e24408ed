import TurtleGraphics.Proofs.StatementLines

/-!
# TurtleGraphics.Proofs.SourceLines

What becomes of each line of a source text. Its code, which ends at the first `#` outside double quotes
(`cut_cutComment`), is cut into words, and its logical lines have all of these words in order. They are
found again by their number: `filter_linesFrom` says that the logical lines numbered like a source line
are those of this line. So facts about one line (`linesOf`) are facts about the whole text, and
`lines_account` puts together what the reader of blocks may rely on.
-/

namespace TurtleGraphics
namespace Program

/-! ## Where a line is cut -/

/-- Every `#` of the text stands inside double quotes; `quoted` says whether the text starts there. -/
def HashesQuoted (quoted : Bool) (cs : List Char) : Prop :=
  ∀ front back, cs = front ++ '#' :: back → quotedAfter quoted front = true

/-- The code and the comment of a source line. It is all code if each `#` in it is quoted, and else the
first one that is not divides it. -/
inductive Cut : List Char → List Char → Option (List Char) → Prop where
  | uncommented {code : List Char} : HashesQuoted false code → Cut code code none
  | commented {code text : List Char} : HashesQuoted false code → quotedAfter false code = false →
      Cut (code ++ '#' :: text) code (some text)

theorem hashesQuoted_of_cutComment {quoted : Bool} {cs : List Char}
    (h : (cutComment quoted cs).2 = none) : HashesQuoted quoted cs := by
  rintro front back rfl
  cases hfront : (cutComment quoted front).2 with
  | some text =>
    rw [cutComment_append_of_some hfront] at h
    cases h
  | none =>
    rw [cutComment_append hfront] at h
    cases hq : quotedAfter quoted front with
    | true => rfl
    | false =>
      rw [hq] at h
      cases h

/-- There is no comment in the code. -/
theorem cutComment_code (quoted : Bool) (cs : List Char) :
    (cutComment quoted (cutComment quoted cs).1).2 = none := by
  induction cs generalizing quoted with
  | nil => rfl
  | cons c cs ih =>
    rw [cutComment]
    split
    · rfl
    · rename_i hc
      rw [cutComment, if_neg hc]
      exact ih _

theorem cut_cutComment (raw : List Char) :
    Cut raw (cutComment false raw).1 (cutComment false raw).2 := by
  have hcode := cutComment_code false raw
  cases hcut : (cutComment false raw).2 with
  | none =>
    rw [cutComment_fst_of_none hcut]
    exact .uncommented (hashesQuoted_of_cutComment hcut)
  | some text =>
    have hraw := eq_of_cutComment_some hcut
    have hquoted : quotedAfter false (cutComment false raw).1 = false := by
      have hagain := cutComment_append hcode ('#' :: text)
      rw [← hraw] at hagain
      cases hq : quotedAfter false (cutComment false raw).1 with
      | false => rfl
      | true =>
        -- a `#` inside quotes would be code
        rw [hq] at hagain
        have hlength := congrArg (List.length ∘ Prod.fst) hagain
        simp [cutComment] at hlength
    have hcommented := @Cut.commented _ text (hashesQuoted_of_cutComment hcode) hquoted
    rwa [← hraw] at hcommented

/-! ## One source line -/

theorem codeOf_eq_nil_iff {raw : List Char} : codeOf raw = [] ↔ words (codeOf raw) = [] := by
  constructor
  · intro h
    rw [h]
    rfl
  · intro h
    have hblank := Text.fields_eq_nil_iff.1 (words_eq_nil_iff.1 h)
    have htrim := Text.trim_blanks_append hblank []
    rw [List.append_nil, codeOf, Text.trim_trim] at htrim
    exact htrim

/-- A source line with a comment and no code. -/
def IsNote (raw : List Char) : Prop :=
  codeOf raw = [] ∧ (commentOf raw).isSome = true

theorem wordless_iff {number : Nat} {raw : List Char} {l : Line} (h : l ∈ linesOf number raw) :
    l.words = [] ↔ IsNote raw := by
  by_cases hw : words (codeOf raw) = []
  · cases hc : commentOf raw with
    | none =>
      rw [linesOf_of_blank hw hc] at h
      cases h
    | some text =>
      rw [linesOf_of_comment hw hc, List.mem_singleton] at h
      simp [h, IsNote, codeOf_eq_nil_iff, hw, hc]
  · have hne : l.words ≠ [] :=
      (isRun_of_mem_runs [] _ (by simp) l.words (mem_runs_of_mem_linesOf hw h)).ne_nil
    simp [hne, IsNote, codeOf_eq_nil_iff, hw]

/-! ## Numbered lines -/

theorem mem_linesFrom_iff {start : Nat} {raws : List (List Char)} {l : Line} :
    l ∈ linesFrom start raws ↔ ∃ k raw, raws[k]? = some raw ∧ l ∈ linesOf (start + k) raw := by
  induction raws generalizing start with
  | nil => simp [linesFrom]
  | cons first raws ih =>
    rw [linesFrom, List.mem_append, ih]
    constructor
    · rintro (h | ⟨k, raw, hk, h⟩)
      · exact ⟨0, first, rfl, h⟩
      · exact ⟨k + 1, raw, hk, by rwa [← Nat.add_assoc, Nat.add_right_comm]⟩
    · rintro ⟨_ | k, raw, hk, h⟩
      · cases hk
        exact .inl h
      · exact .inr ⟨k, raw, hk, by rwa [← Nat.add_assoc, Nat.add_right_comm] at h⟩

/-- The logical lines with the number of a source line are those of this line. -/
theorem filter_linesFrom {start : Nat} {raws : List (List Char)} {k : Nat} {raw : List Char}
    (h : raws[k]? = some raw) :
    ((linesFrom start raws).filter fun l => l.number == start + k) = linesOf (start + k) raw := by
  induction raws generalizing start k with
  | nil => cases h
  | cons first raws ih =>
    rw [linesFrom, List.filter_append]
    cases k with
    | zero =>
      cases h
      have hfirst : ∀ l ∈ linesOf start raw, (l.number == start + 0) = true := fun l hl => by
        simp [number_of_mem_linesOf hl]
      have hrest : ∀ l ∈ linesFrom (start + 1) raws, ¬(l.number == start + 0) = true := fun l hl => by
        have hlater := le_of_mem_linesFrom hl
        simp only [beq_iff_eq]
        omega
      rw [List.filter_eq_self.2 hfirst, List.filter_eq_nil_iff.2 hrest, List.append_nil]
      rfl
    | succ k =>
      have hfirst : ∀ l ∈ linesOf start first, ¬(l.number == start + (k + 1)) = true := fun l hl => by
        simp [number_of_mem_linesOf hl]
      have hnumber : start + (k + 1) = start + 1 + k := by omega
      rw [List.filter_eq_nil_iff.2 hfirst, List.nil_append, hnumber]
      exact ih h

theorem ascending_linesFrom (start : Nat) (raws : List (List Char)) :
    (linesFrom start raws).Pairwise fun a b => a.number ≤ b.number := by
  induction raws generalizing start with
  | nil => exact .nil
  | cons raw raws ih =>
    refine List.pairwise_append.2 ⟨?_, ih (start + 1), ?_⟩
    · refine List.pairwise_of_forall_mem_list fun a ha b hb => ?_
      exact Nat.le_of_eq ((number_of_mem_linesOf ha).trans (number_of_mem_linesOf hb).symm)
    · intro a ha b hb
      rw [number_of_mem_linesOf ha]
      exact Nat.le_of_succ_le (le_of_mem_linesFrom hb)

theorem mem_commentsFrom_iff {start : Nat} {raws : List (List Char)} {number : Nat} {text : String} :
    (number, text) ∈ commentsFrom start raws ↔
      ∃ k raw, number = start + k ∧ raws[k]? = some raw ∧ commentOf raw = some text := by
  induction raws generalizing start with
  | nil => simp [commentsFrom]
  | cons first raws ih =>
    rw [commentsFrom_cons, List.mem_append, ih]
    constructor
    · rintro (h | ⟨k, raw, rfl, hk, h⟩)
      · obtain ⟨text', htext, heq⟩ := List.mem_map.1 h
        cases heq
        exact ⟨0, first, rfl, rfl, by simpa using htext⟩
      · exact ⟨k + 1, raw, by omega, hk, h⟩
    · rintro ⟨_ | k, raw, rfl, hk, h⟩
      · cases hk
        exact .inl (by simp [h])
      · exact .inr ⟨k, raw, by omega, hk, h⟩

theorem ascending_commentsFrom (start : Nat) (raws : List (List Char)) :
    (commentsFrom start raws).Pairwise fun a b => a.1 < b.1 := by
  induction raws generalizing start with
  | nil => exact .nil
  | cons raw raws ih =>
    rw [commentsFrom_cons]
    refine List.pairwise_append.2 ⟨?_, ih (start + 1), ?_⟩
    · cases commentOf raw <;> simp
    · intro a ha b hb
      obtain ⟨text, -, rfl⟩ := List.mem_map.1 ha
      exact le_of_mem_commentsFrom hb

/-! ## The whole text -/

/-- The source line with this number; the first one has number 1. -/
def sourceLine? (source : String) : Nat → Option (List Char)
  | 0 => none
  | k + 1 => (Text.lines source.toList)[k]?

theorem sourceLine?_eq_some_iff {source : String} {number : Nat} {raw : List Char} :
    sourceLine? source number = some raw ↔
      ∃ k, number = 1 + k ∧ (Text.lines source.toList)[k]? = some raw := by
  cases number with
  | zero =>
    constructor
    · intro h
      cases h
    · rintro ⟨k, hk, -⟩
      omega
  | succ k =>
    constructor
    · exact fun h => ⟨k, Nat.add_comm k 1, h⟩
    · rintro ⟨j, hj, h⟩
      obtain rfl : k = j := by omega
      exact h

theorem mem_lines_iff {source : String} {l : Line} :
    l ∈ lines source ↔ ∃ raw, sourceLine? source l.number = some raw ∧ l ∈ linesOf l.number raw := by
  constructor
  · intro h
    obtain ⟨k, raw, hk, hl⟩ := mem_linesFrom_iff.1 h
    have hnumber := number_of_mem_linesOf hl
    exact ⟨raw, sourceLine?_eq_some_iff.2 ⟨k, hnumber, hk⟩, by rwa [hnumber]⟩
  · rintro ⟨raw, hraw, hl⟩
    obtain ⟨k, hnumber, hk⟩ := sourceLine?_eq_some_iff.1 hraw
    exact mem_linesFrom_iff.2 ⟨k, raw, hk, by rwa [← hnumber]⟩

theorem filter_lines {source : String} {number : Nat} {raw : List Char}
    (h : sourceLine? source number = some raw) :
    ((lines source).filter fun l => l.number == number) = linesOf number raw := by
  obtain ⟨k, rfl, hk⟩ := sourceLine?_eq_some_iff.1 h
  exact filter_linesFrom hk

theorem mem_comments_iff {source : String} {number : Nat} {text : String} :
    (number, text) ∈ comments source ↔
      ∃ raw, sourceLine? source number = some raw ∧ commentOf raw = some text := by
  simp only [comments, mem_commentsFrom_iff, sourceLine?_eq_some_iff]
  constructor
  · rintro ⟨k, raw, hnumber, hk, htext⟩
    exact ⟨raw, ⟨k, hnumber, hk⟩, htext⟩
  · rintro ⟨raw, ⟨k, hnumber, hk⟩, htext⟩
    exact ⟨k, raw, hnumber, hk, htext⟩

/-- How logical lines and comments account for a source text. `wordless` says which logical lines have no
words, and `noted` that each comment without code has such a line. -/
structure Accounts (source : String) (ls : List Line) (notes : List (Nat × String)) : Prop where
  cut : ∀ number raw, sourceLine? source number = some raw → ∃ code comment, Cut raw code comment ∧
    codeOf raw = Text.trim code ∧
      commentOf raw = comment.map fun text => String.ofList (Text.trim text)
  words : ∀ number raw, sourceLine? source number = some raw →
    (ls.filter fun l => l.number == number).flatMap Line.words = words (codeOf raw)
  ascending : ls.Pairwise fun a b => a.number ≤ b.number
  endAlone : ∀ l ∈ ls, "end" ∈ l.words → l.words = ["end"]
  doLast : ∀ l ∈ ls, "do" ∉ l.words.dropLast
  wordless : ∀ l ∈ ls, ∃ raw, sourceLine? source l.number = some raw ∧ (l.words = [] ↔ IsNote raw)
  noted : ∀ number raw, sourceLine? source number = some raw → IsNote raw → ∃ l ∈ ls, l.number = number
  comments : ∀ number text, (number, text) ∈ notes ↔
    ∃ raw, sourceLine? source number = some raw ∧ commentOf raw = some text
  commentOnce : notes.Pairwise fun a b => a.1 < b.1

/-- Logical lines keep every word of the source, each on a line with the number of its source line, and
comments are those of the source lines. -/
theorem lines_account (source : String) : Accounts source (lines source) (comments source) := by
  have hrun : ∀ l ∈ lines source, l.words = [] ∨ IsRun l.words := fun l hl =>
    or_iff_not_imp_left.2 (formed_of_mem_lines hl).run
  refine ⟨fun _ raw _ => ⟨_, _, cut_cutComment raw, rfl, rfl⟩, ?_, ascending_linesFrom 1 _, ?_, ?_, ?_,
    ?_, fun _ _ => mem_comments_iff, ascending_commentsFrom 1 _⟩
  · intro number raw hraw
    rw [filter_lines hraw, flatMap_words_linesOf]
  · intro l hl hend
    rcases hrun l hl with hnil | halone | ⟨-, hnot, -⟩
    · rw [hnil] at hend
      cases hend
    · exact halone
    · exact absurd hend hnot
  · intro l hl
    rcases hrun l hl with hnil | halone | ⟨-, -, hlast⟩
    · simp [hnil]
    · simp [halone]
    · exact hlast
  · intro l hl
    obtain ⟨raw, hraw, hmem⟩ := mem_lines_iff.1 hl
    exact ⟨raw, hraw, wordless_iff hmem⟩
  · intro number raw hraw hnote
    obtain ⟨l, hl⟩ := List.exists_mem_of_ne_nil _ (@linesOf_ne_nil number raw (.inr hnote.2))
    obtain rfl := number_of_mem_linesOf hl
    exact ⟨l, mem_lines_iff.2 ⟨raw, hraw, hl⟩, rfl⟩

end Program
end TurtleGraphics
