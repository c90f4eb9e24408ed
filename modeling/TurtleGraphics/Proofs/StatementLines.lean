import Mathlib.Data.List.Forall2
import TurtleGraphics.Proofs.PrintedLines

/-!
# TurtleGraphics.Proofs.StatementLines

No line is lost by reading. The statements of a program, each before those inside it, are one to one and
in order the logical lines of its source other than `end`, and of the statements from one source line the
first has the comment of that line (`parse_keeps_lines`).

Both halves meet in the marks of statements. `Spells.forall₂` says that statements have the marks of their
lines in order, and `placed_linesFrom` which of these marks have a comment.
-/

namespace TurtleGraphics
namespace Program

open Statement (preorderAll)
open Text (isBlank joinWords)

/-! ## Words and names -/

/-- The argument that a word is read as: a comma at the end of an unquoted word is dropped. -/
inductive Strips (word : String) : String → Prop where
  | comma {stem : String} (hword : word = stem ++ ",") (hquote : word.toList.head? ≠ some '"') :
      Strips word stem
  | quoted (hquote : word.toList.head? = some '"') : Strips word word
  | kept (hlast : word.toList.getLast? ≠ some ',') : Strips word word

theorem strips_withoutComma (word : String) : Strips word (withoutComma word) := by
  by_cases hquote : word.toList.head? = some '"'
  · rw [withoutComma, startsWithQuote, if_pos (by simp [hquote])]
    exact .quoted hquote
  · rw [withoutComma, startsWithQuote, if_neg (by simpa using hquote)]
    by_cases hlast : word.toList.getLast? = some ','
    · rw [if_pos (by simp [hlast])]
      refine .comma ?_ hquote
      obtain ⟨stem, hstem⟩ := List.getLast?_eq_some_iff.1 hlast
      rw [hstem, List.dropLast_concat, ← String.toList_inj, hstem]
      simp
    · rw [if_neg (by simpa using hlast)]
      exact .kept hlast

/-- What divides the names in the header of a definition. -/
def isDivider (c : Char) : Bool :=
  isBlank c || (c == '(' || c == ')' || c == ',')

/-- The names in a text: its longest pieces without dividers, in order. -/
inductive Names : List Char → List String → Prop where
  | nil {gap : List Char} (hgap : ∀ c ∈ gap, isDivider c = true) : Names gap []
  | cons {gap name rest : List Char} {names : List String} (hgap : ∀ c ∈ gap, isDivider c = true)
      (hne : name ≠ []) (hname : ∀ c ∈ name, isDivider c = false)
      (hrest : ∀ c, rest.head? = some c → isDivider c = true) (hnames : Names rest names) :
      Names (gap ++ (name ++ rest)) (String.ofList name :: names)

theorem Names.divider_cons {c : Char} {cs : List Char} {names : List String} (h : Names cs names)
    (hc : isDivider c = true) : Names (c :: cs) names := by
  cases h with
  | nil hgap => exact .nil (List.forall_mem_cons.2 ⟨hc, hgap⟩)
  | @cons gap name rest names hgap hne hname hrest hnames =>
    exact @Names.cons (c :: gap) name rest names (List.forall_mem_cons.2 ⟨hc, hgap⟩) hne hname hrest
      hnames

/-- Every text has its names. -/
theorem exists_names (cs : List Char) : ∃ names, Names cs names := by
  induction cs with
  | nil => exact ⟨[], .nil (by simp)⟩
  | cons c cs ih =>
    obtain ⟨names, h⟩ := ih
    cases hc : isDivider c with
    | true => exact ⟨names, h.divider_cons hc⟩
    | false =>
      by_cases hcs : ∀ d, cs.head? = some d → isDivider d = true
      · exact ⟨_, @Names.cons [] [c] cs names (by simp) (by simp) (by simp [hc]) hcs h⟩
      · -- the name that the rest begins with is longer by one character
        simp only [not_forall, Bool.not_eq_true] at hcs
        obtain ⟨d, hd, hno⟩ := hcs
        cases h with
        | nil hgap =>
          rw [hgap d (List.mem_of_head? hd)] at hno
          cases hno
        | @cons gap name rest names hgap hne hname hrest hnames =>
          cases gap with
          | nil =>
            exact ⟨_, @Names.cons [] (c :: name) rest names (by simp) (by simp)
              (List.forall_mem_cons.2 ⟨hc, hname⟩) hrest hnames⟩
          | cons e gap =>
            obtain rfl : e = d := Option.some.inj hd
            rw [hgap e (by simp)] at hno
            cases hno

/-- A blank for every bracket and comma. -/
def blanked (c : Char) : Char :=
  if c == '(' || c == ')' || c == ',' then ' ' else c

theorem isBlank_blanked (c : Char) : isBlank (blanked c) = isDivider c := by
  unfold blanked isDivider
  split
  · rename_i hc
    rw [hc, Bool.or_true]
    rfl
  · rename_i hc
    rw [Bool.eq_false_iff.2 hc, Bool.or_false]

theorem map_blanked {name : List Char} (h : ∀ c ∈ name, isDivider c = false) :
    name.map blanked = name := by
  rw [List.map_congr_left (g := id), List.map_id]
  intro c hc
  rw [blanked, (Bool.or_eq_false_iff.1 (h c hc)).2]
  rfl

/-- The names are the pieces between blanks, once all dividers are blanks. -/
theorem Names.fields_eq {cs : List Char} {names : List String} (h : Names cs names) :
    (Text.fields (cs.map blanked)).map String.ofList = names := by
  have hblanks : ∀ {gap : List Char}, (∀ c ∈ gap, isDivider c = true) →
      ∀ c ∈ gap.map blanked, isBlank c = true := by
    intro gap hgap c hc
    obtain ⟨x, hx, rfl⟩ := List.mem_map.1 hc
    rw [isBlank_blanked]
    exact hgap x hx
  induction h with
  | nil hgap => rw [Text.fields_eq_nil_iff.2 (hblanks hgap), List.map_nil]
  | @cons gap name rest names hgap hne hname hrest hnames ih =>
    have hfield : Text.IsField name := ⟨hne, fun c hc => (Bool.or_eq_false_iff.1 (hname c hc)).1⟩
    have hfields : Text.fields (name ++ rest.map blanked) = name :: Text.fields (rest.map blanked) := by
      cases rest with
      | nil => simp [Text.fields_of_isField hfield]
      | cons c rest =>
        have hc : isBlank (blanked c) = true := (isBlank_blanked c).trans (hrest c rfl)
        rw [List.map_cons, Text.fields_append_blank hc, Text.fields_blank_cons hc,
          Text.fields_of_isField hfield, List.singleton_append]
    rw [List.map_append, List.map_append, map_blanked hname, Text.fields_blanks_append (hblanks hgap),
      hfields, List.map_cons, ih]

theorem names_headerNames (inner : List String) :
    Names (joinWords inner).toList (headerNames inner) := by
  obtain ⟨names, h⟩ := exists_names (joinWords inner).toList
  have heq : headerNames inner = names := h.fields_eq
  rw [heq]
  exact h

/-! ## Lines that begin statements -/

/-- The statement has the number of the line, and its kind and its texts are given by the words of the
line. Arguments and parameters are words, and have no comments. -/
inductive Line.Begins (l : Line) : Statement → Prop where
  | empty (comment : Option String) (hwords : l.words = []) :
      Begins l (.empty ⟨l.number, comment⟩)
  | loop (comment : Option String) {keyword : String} {inner : List String} (body : List Statement)
      (hwords : l.words = keyword :: (inner ++ ["do"])) (hkey : keyword ∈ ["for", "loop"]) :
      Begins l (.loop ⟨l.number, comment⟩ (joinWords inner) body)
  | when (comment : Option String) {inner : List String} (body : List Statement)
      (hwords : l.words = "when" :: (inner ++ ["do"])) :
      Begins l (.when ⟨l.number, comment⟩ (joinWords inner) body)
  | define (comment : Option String) {keyword : String} {inner names : List String}
      (body : List Statement) (hwords : l.words = keyword :: (inner ++ ["do"]))
      (hkey : keyword ∈ ["draw", "def"]) (hnames : Names (joinWords inner).toList names) :
      Begins l (.define ⟨l.number, comment⟩ (names.headD "") names.tail body)
  | call (comment : Option String) {name : String} {rest args : List String}
      (hwords : l.words = name :: rest)
      (hname : name ∉ ["end", "for", "loop", "when", "draw", "def"])
      (hargs : List.Forall₂ Strips rest args) :
      Begins l (.call ⟨l.number, comment⟩ name args)

theorem keyword_of_kind {keyword : String} {kind : BlockKind}
    (h : BlockKind.ofKeyword? keyword = some kind) :
    match kind with
    | .loop => keyword ∈ ["for", "loop"]
    | .when => keyword = "when"
    | .define => keyword ∈ ["draw", "def"] := by
  unfold BlockKind.ofKeyword? at h
  split at h <;> cases h <;> simp

theorem Heads.begins {l : Line} {s : Statement} (h : Heads l.words s) (hmark : s.mark = l.mark) :
    l.Begins s := by
  generalize hwords : l.words = ws at h
  cases h with
  | empty mark =>
    cases hmark
    exact .empty l.comment hwords
  | @call mark name args hend hkey hdo =>
    cases hmark
    have hargs : List.Forall₂ Strips args (args.map withoutComma) := by
      rw [List.forall₂_map_right_iff, List.forall₂_same]
      exact fun w _ => strips_withoutComma w
    refine .call l.comment hwords ?_ hargs
    rw [List.mem_cons, not_or]
    exact ⟨hend, ofKeyword_eq_none_iff.1 hkey⟩
  | @block mark keyword kind inner body hkey hne =>
    rw [BlockKind.mark_statement] at hmark
    subst hmark
    have hkeyword := keyword_of_kind hkey
    cases kind with
    | loop => exact .loop l.comment body hwords hkeyword
    | when =>
      have hwhen : keyword = "when" := hkeyword
      exact .when l.comment body (hwhen ▸ hwords)
    | define =>
      have hdefine := Line.Begins.define l.comment body hwords hkeyword (names_headerNames inner)
      simp only [BlockKind.statement]
      cases hnames : headerNames inner with
      | nil => rw [hnames] at hdefine; exact hdefine
      | cons name params => rw [hnames] at hdefine; exact hdefine

/-- The lines other than `end`. -/
def statementLines (ls : List Line) : List Line :=
  ls.filter fun l => l.words != ["end"]

theorem statementLines_append (a b : List Line) :
    statementLines (a ++ b) = statementLines a ++ statementLines b :=
  List.filter_append ..

theorem statementLines_cons_of_heads {l : Line} {s : Statement} (h : Heads l.words s)
    (ls : List Line) : statementLines (l :: ls) = l :: statementLines ls := by
  refine List.filter_cons_of_pos ?_
  rw [bne_iff_ne]
  exact h.ne_end

theorem statementLines_cons_of_end {l : Line} (hrun : l.words ≠ [] → IsRun l.words)
    (h : l.words.head? = some "end") (ls : List Line) :
    statementLines (l :: ls) = statementLines ls := by
  refine List.filter_cons_of_neg ?_
  have hne : l.words ≠ [] := by
    intro hnil
    rw [hnil] at h
    cases h
  rcases hrun hne with hend | ⟨-, hno, -⟩
  · simp [hend]
  · exact absurd (List.mem_of_head? h) hno

/-- Statements are begun by their lines, in order. -/
theorem Spells.forall₂ {ls : List Line} {program : List Statement} (h : Spells ls program)
    (hruns : ∀ l ∈ ls, l.words ≠ [] → IsRun l.words) :
    List.Forall₂ (fun l s => l.Begins s ∧ s.mark = l.mark) (statementLines ls) (preorderAll program) := by
  induction h with
  | nil => exact .nil
  | @leaf l ls s rest hh hm hb _ ih =>
    rw [statementLines_cons_of_heads hh, preorderAll, Statement.preorder_of_leaf hb]
    exact .cons ⟨hh.begins hm, hm⟩ (ih fun x hx => hruns x (List.mem_cons_of_mem l hx))
  | @block l close inside ls s body rest hh hm hb _ hclose _ ihb ihr =>
    have hinside := ihb fun x hx => hruns x (by simp [hx])
    have hrest := ihr fun x hx => hruns x (by simp [hx])
    rw [statementLines_cons_of_heads hh, statementLines_append,
      statementLines_cons_of_end (hruns close (by simp)) hclose, preorderAll,
      Statement.preorder_of_block hb]
    exact .cons ⟨hh.begins hm, hm⟩ (List.rel_append hinside hrest)

/-! ## Comments -/

/-- Of the marks of one source line the first has its comment, and no other has one. -/
def Placed (comments : List (Nat × String)) (marks : List Mark) : Prop :=
  ∀ front mark back, marks = front ++ mark :: back → ∀ text,
    mark.comment = some text ↔ (mark.line, text) ∈ comments ∧ ∀ k ∈ front, k.line ≠ mark.line

theorem placed_nil (comments : List (Nat × String)) : Placed comments [] := by
  intro front mark back h
  simp at h

/-- The marks of one source line. -/
theorem placed_of_line (number : Nat) (comment : Option String) (count : Nat) :
    Placed (comment.toList.map (number, ·)) (⟨number, comment⟩ :: List.replicate count ⟨number, none⟩) := by
  intro front mark back h text
  cases front with
  | nil =>
    obtain ⟨rfl, -⟩ := List.cons.inj h
    simp [eq_comm]
  | cons first front =>
    obtain ⟨rfl, hback⟩ := List.cons.inj h
    have hmem : mark ∈ List.replicate count (⟨number, none⟩ : Mark) := by
      rw [hback]
      simp
    rw [List.eq_of_mem_replicate hmem]
    simp

/-- Source lines one after the other. -/
theorem Placed.append (number : Nat) {c d : List (Nat × String)} {a b : List Mark}
    (ha : Placed c a) (hb : Placed d b) (hc : ∀ x ∈ c, x.1 = number) (hd : ∀ x ∈ d, number < x.1)
    (hlines : ∀ k ∈ a, k.line = number) (hlater : ∀ k ∈ b, number < k.line) :
    Placed (c ++ d) (a ++ b) := by
  intro front mark back h text
  have hearly : ∀ rest, a = front ++ mark :: rest → (mark.comment = some text ↔
      (mark.line, text) ∈ c ++ d ∧ ∀ k ∈ front, k.line ≠ mark.line) := by
    rintro rest rfl
    have hnot : (mark.line, text) ∉ d := fun hm =>
      absurd (hlines mark (by simp)) (Nat.ne_of_gt (hd _ hm))
    rw [ha front mark rest rfl text, List.mem_append, or_iff_left hnot]
  have hlate : ∀ before, front = a ++ before → b = before ++ mark :: back →
      (mark.comment = some text ↔
        (mark.line, text) ∈ c ++ d ∧ ∀ k ∈ front, k.line ≠ mark.line) := by
    rintro before rfl rfl
    have hmark : number < mark.line := hlater mark (by simp)
    have hnot : (mark.line, text) ∉ c := fun hm => absurd (hc _ hm) (Nat.ne_of_gt hmark)
    have hfirst : ∀ k ∈ a, k.line ≠ mark.line := fun k hk heq => by
      rw [← heq, hlines k hk] at hmark
      exact Nat.lt_irrefl _ hmark
    rw [hb before mark back rfl text, List.mem_append, or_iff_right hnot, List.forall_mem_append,
      and_iff_right hfirst]
  rcases List.append_eq_append_iff.1 h with ⟨before, hfront, hback⟩ | ⟨rest, hfront, hback⟩
  · exact hlate before hfront hback
  · cases rest with
    | nil => exact hlate [] (by simpa using hfront.symm) hback.symm
    | cons first rest =>
      obtain ⟨rfl, -⟩ := List.cons.inj hback
      exact hearly rest hfront

theorem commentsFrom_cons (number : Nat) (raw : List Char) (raws : List (List Char)) :
    commentsFrom number (raw :: raws) =
      (commentOf raw).toList.map (number, ·) ++ commentsFrom (number + 1) raws := by
  rw [commentsFrom]
  cases commentOf raw with
  | none => rfl
  | some text => rfl

theorem le_of_mem_commentsFrom {number : Nat} {raws : List (List Char)} {c : Nat × String}
    (h : c ∈ commentsFrom number raws) : number ≤ c.1 := by
  induction raws generalizing number with
  | nil => cases h
  | cons raw raws ih =>
    rw [commentsFrom_cons, List.mem_append] at h
    rcases h with h | h
    · obtain ⟨text, -, rfl⟩ := List.mem_map.1 h
      exact Nat.le_refl number
    · exact Nat.le_of_succ_le (ih h)

theorem number_of_mem_numberRuns {number : Nat} {comment : Option String} {rs : List (List String)}
    {l : Line} (h : l ∈ numberRuns number comment rs) : l.number = number := by
  induction rs generalizing comment with
  | nil => cases h
  | cons r rs ih =>
    rw [numberRuns] at h
    split at h
    · rcases List.mem_cons.1 h with rfl | h
      · rfl
      · exact ih h
    · rcases List.mem_cons.1 h with rfl | h
      · rfl
      · exact ih h

theorem number_of_mem_linesOf {number : Nat} {raw : List Char} {l : Line}
    (h : l ∈ linesOf number raw) : l.number = number := by
  unfold linesOf at h
  split at h
  · rw [List.mem_singleton.1 h]
  · exact number_of_mem_numberRuns h

theorem le_of_mem_linesFrom {number : Nat} {raws : List (List Char)} {l : Line}
    (h : l ∈ linesFrom number raws) : number ≤ l.number := by
  induction raws generalizing number with
  | nil => cases h
  | cons raw raws ih =>
    rcases List.mem_append.1 h with h | h
    · exact Nat.le_of_eq (number_of_mem_linesOf h).symm
    · exact Nat.le_of_succ_le (ih h)

/-- The first of the runs of a source line other than `end` takes the comment. -/
theorem marks_numberRuns (number : Nat) (comment : Option String) (rs : List (List String)) :
    (statementLines (numberRuns number comment rs)).map Line.mark = [] ∨
      ∃ count, (statementLines (numberRuns number comment rs)).map Line.mark =
        ⟨number, comment⟩ :: List.replicate count ⟨number, none⟩ := by
  induction rs generalizing comment with
  | nil => exact .inl rfl
  | cons r rs ih =>
    rw [numberRuns]
    split
    · rename_i hend
      have hskip : statementLines (⟨number, r, none⟩ :: numberRuns number comment rs) =
          statementLines (numberRuns number comment rs) :=
        List.filter_cons_of_neg (by simpa using hend)
      rw [hskip]
      exact ih comment
    · rename_i hend
      have hkeep : statementLines (⟨number, r, comment⟩ :: numberRuns number none rs) =
          ⟨number, r, comment⟩ :: statementLines (numberRuns number none rs) :=
        List.filter_cons_of_pos (by simpa using hend)
      rw [hkeep, List.map_cons]
      refine .inr ?_
      rcases ih none with hnil | ⟨count, hcount⟩
      · exact ⟨0, by rw [hnil]; rfl⟩
      · exact ⟨count + 1, by rw [hcount]; rfl⟩

theorem placed_linesOf (number : Nat) (raw : List Char) :
    Placed ((commentOf raw).toList.map (number, ·))
      ((statementLines (linesOf number raw)).map Line.mark) := by
  unfold linesOf
  split
  · rename_i text _ hcomment
    rw [hcomment]
    exact placed_of_line number (some text) 0
  · rcases marks_numberRuns number (commentOf raw) (runs [] (words (codeOf raw))) with
      hnil | ⟨count, hcount⟩
    · rw [hnil]
      exact placed_nil _
    · rw [hcount]
      exact placed_of_line number (commentOf raw) count

theorem placed_linesFrom (number : Nat) (raws : List (List Char)) :
    Placed (commentsFrom number raws) ((statementLines (linesFrom number raws)).map Line.mark) := by
  induction raws generalizing number with
  | nil => exact placed_nil _
  | cons raw raws ih =>
    rw [commentsFrom_cons, linesFrom, statementLines_append, List.map_append]
    refine Placed.append number (placed_linesOf number raw) (ih (number + 1)) ?_ ?_ ?_ ?_
    · intro c hc
      obtain ⟨text, -, rfl⟩ := List.mem_map.1 hc
      rfl
    · intro c hc
      exact le_of_mem_commentsFrom hc
    · intro k hk
      obtain ⟨l, hl, rfl⟩ := List.mem_map.1 hk
      exact number_of_mem_linesOf (List.mem_filter.1 hl).1
    · intro k hk
      obtain ⟨l, hl, rfl⟩ := List.mem_map.1 hk
      exact le_of_mem_linesFrom (List.mem_filter.1 hl).1

/-! ## Programs -/

theorem marks_of_forall₂ {ls : List Line} {ss : List Statement}
    (h : List.Forall₂ (fun l s => l.Begins s ∧ s.mark = l.mark) ls ss) :
    ss.map Statement.mark = ls.map Line.mark := by
  induction h with
  | nil => rfl
  | cons h _ ih => rw [List.map_cons, List.map_cons, ih, h.2]

theorem forall₂_of_parse {source : String} {program : List Statement} (h : parse source = .ok program) :
    List.Forall₂ (fun l s => l.Begins s ∧ s.mark = l.mark) (statementLines (lines source))
      (preorderAll program) :=
  (spells_of_parse h).forall₂ fun _ hl => (formed_of_mem_lines hl).run

theorem placed_of_parse {source : String} {program : List Statement} (h : parse source = .ok program) :
    Placed (comments source) ((preorderAll program).map Statement.mark) := by
  rw [marks_of_forall₂ (forall₂_of_parse h)]
  exact placed_linesFrom 1 (Text.lines source.toList)

/-- Reading loses no line. The statements of a program, each before those inside it, are begun one by one
by the lines of its source other than `end`, and a statement has a comment exactly if its source line has
this comment and no statement before it is from the same line. -/
theorem parse_keeps_lines {source : String} {program : List Statement}
    (h : parse source = .ok program) :
    List.Forall₂ Line.Begins ((lines source).filter fun l => l.words != ["end"])
        (preorderAll program) ∧
      ∀ front s back, preorderAll program = front ++ s :: back → ∀ text,
        s.comment = some text ↔
          (s.line, text) ∈ comments source ∧ ∀ r ∈ front, r.line ≠ s.line := by
  refine ⟨(forall₂_of_parse h).imp fun l s hls => hls.1, ?_⟩
  intro front s back hsplit text
  have hplaced := placed_of_parse h
  rw [hsplit, List.map_append, List.map_cons] at hplaced
  have hfirst := hplaced (front.map Statement.mark) s.mark (back.map Statement.mark) rfl text
  rw [List.forall_mem_map] at hfirst
  exact hfirst

/-- Two statements and an `end` on one commented line: the first of them has the comment. -/
theorem parse_keeps_lines_of_short_loop :
    ∃ program, parse "for 2 do fw 1, end # twice\n# done" = .ok program ∧
      (preorderAll program).map Statement.mark = [⟨1, some "twice"⟩, ⟨1, none⟩, ⟨2, some "done"⟩] ∧
      List.Forall₂ Line.Begins
        [⟨1, ["for", "2", "do"], some "twice"⟩, ⟨1, ["fw", "1,"], none⟩, ⟨2, [], some "done"⟩]
        (preorderAll program) ∧
      ∀ front s back, preorderAll program = front ++ s :: back → ∀ text,
        s.comment = some text ↔
          (s.line, text) ∈ [(1, "twice"), (2, "done")] ∧ ∀ r ∈ front, r.line ≠ s.line := by
  have hmarks : ((parse "for 2 do fw 1, end # twice\n# done").toOption.map fun program =>
      (preorderAll program).map Statement.mark) =
      some [⟨1, some "twice"⟩, ⟨1, none⟩, ⟨2, some "done"⟩] := by
    decide +kernel
  have hlines : ((lines "for 2 do fw 1, end # twice\n# done").filter fun l => l.words != ["end"]) =
      [⟨1, ["for", "2", "do"], some "twice"⟩, ⟨1, ["fw", "1,"], none⟩, ⟨2, [], some "done"⟩] := by
    decide +kernel
  have hcomments : comments "for 2 do fw 1, end # twice\n# done" = [(1, "twice"), (2, "done")] := by
    decide +kernel
  cases hparse : parse "for 2 do fw 1, end # twice\n# done" with
  | error f =>
    rw [hparse] at hmarks
    cases hmarks
  | ok program =>
    rw [hparse] at hmarks
    have hkept := parse_keeps_lines hparse
    rw [hlines, hcomments] at hkept
    exact ⟨program, rfl, Option.some.inj hmarks, hkept⟩

end Program
end TurtleGraphics
