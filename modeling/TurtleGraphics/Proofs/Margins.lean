import Mathlib.Logic.Relation
import TurtleGraphics.Proofs.LogicalLines

/-!
# TurtleGraphics.Proofs.Margins

Line ends and margins mean nothing. A change of layout gives every line feed a carriage return, or puts
blanks at the beginning or at the end of one line (`Text.Relayout`). Logical lines come from the pieces
between line feeds (`lines_eq_ofPieces`), a change of layout leaves all pieces as they are but for blanks
at their ends, and these are no part of a logical line (`linesOf_insert`). So a program is read alike
after any number of such changes (`parse_of_relayout`).
-/

namespace TurtleGraphics

/-! ## Changes of layout -/

namespace Text

/-- Puts a carriage return in front of every line feed. -/
def withReturns (cs : List Char) : List Char :=
  cs.flatMap fun c => if c == '\n' then ['\r', '\n'] else [c]

/-- A line begins behind this text. -/
def BeginsLine (front : List Char) : Prop :=
  front = [] ∨ front.getLast? = some '\n'

/-- A line ends in front of this text. -/
def EndsLine (back : List Char) : Prop :=
  back = [] ∨ ['\n'] <+: back ∨ ['\r', '\n'] <+: back

/-- Blanks that stay on one line. -/
def IsMargin (ws : List Char) : Prop :=
  ∀ c ∈ ws, isBlank c = true ∧ c ≠ '\n'

instance (ws : List Char) : Decidable (IsMargin ws) :=
  @List.decidableBAll _ _ (fun _ => instDecidableAnd) ws

/-- One change of the layout of a text. -/
inductive Relayout : List Char → List Char → Prop where
  /-- All lines get carriage returns at their ends. -/
  | returns (cs : List Char) : Relayout cs (withReturns cs)
  /-- A line gets blanks at its beginning. -/
  | indent {front ws back : List Char} (hfront : BeginsLine front) (hws : IsMargin ws) :
      Relayout (front ++ back) (front ++ (ws ++ back))
  /-- A line gets blanks at its end. -/
  | trail {front ws back : List Char} (hback : EndsLine back) (hws : IsMargin ws) :
      Relayout (front ++ back) (front ++ (ws ++ back))

/-- Two texts share one piece, and what is put between them gets into that piece. -/
theorem exists_shared_piece (p : Char → Bool) (front back : List Char) :
    ∃ before l r after, splitWhere p front = before ++ [l] ∧ splitWhere p back = r :: after ∧
      ∀ mid, (∀ c ∈ mid, p c = false) →
        splitWhere p (front ++ (mid ++ back)) = before ++ (l ++ (mid ++ r)) :: after := by
  obtain ⟨r, after, hback⟩ := List.exists_cons_of_ne_nil (splitWhere_ne_nil p back)
  induction front with
  | nil => exact ⟨[], [], r, after, rfl, hback, fun mid hmid => splitWhere_none_append hmid hback⟩
  | cons c front ih =>
    obtain ⟨before, l, r, after, hfront, hback, hmid⟩ := ih
    by_cases hc : p c = true
    · refine ⟨[] :: before, l, r, after, by simp [splitWhere, hc, hfront], hback, fun mid h => ?_⟩
      simp [splitWhere, hc, hmid mid h]
    · cases before with
      | nil =>
        refine ⟨[], c :: l, r, after, by simp [splitWhere, hc, hfront], hback, fun mid h => ?_⟩
        simp [splitWhere, hc, hmid mid h]
      | cons piece before =>
        refine ⟨(c :: piece) :: before, l, r, after, by simp [splitWhere, hc, hfront], hback,
          fun mid h => ?_⟩
        simp [splitWhere, hc, hmid mid h]

/-- Where a line begins, the piece has no characters so far. -/
theorem BeginsLine.piece_eq {front l : List Char} {before : List (List Char)}
    (h : BeginsLine front) (hfront : splitWhere (· == '\n') front = before ++ [l]) : l = [] := by
  have hlast := congrArg List.getLast? hfront
  rcases h with rfl | hfeed
  · simpa [splitWhere] using hlast.symm
  · obtain ⟨front, rfl⟩ := List.getLast?_eq_some_iff.1 hfeed
    rw [splitWhere_append (by rfl)] at hlast
    simpa [splitWhere] using hlast.symm

/-- Where a line ends, at most a carriage return is left of the piece. -/
theorem EndsLine.isBlank_of_mem {back r : List Char} {after : List (List Char)}
    (h : EndsLine back) (hback : splitWhere (· == '\n') back = r :: after) :
    ∀ c ∈ r, isBlank c = true := by
  rcases h with rfl | ⟨rest, rfl⟩ | ⟨rest, rfl⟩
  · cases hback
    simp
  · cases hback
    simp
  · have hpiece : splitWhere (· == '\n') (['\r'] ++ '\n' :: rest) =
        ['\r'] :: splitWhere (· == '\n') rest := splitWhere_append (by rfl) ['\r'] rest
    cases hpiece.symm.trans hback
    exact List.all_eq_true.1 rfl

end Text

namespace Program

/-! ## Logical lines -/

/-- Blanks can be put in where a line has only blanks before them or behind them. -/
theorem linesOf_insert {l ws r : List Char} (hws : ∀ c ∈ ws, Text.isBlank c = true)
    (hend : l = [] ∨ ∀ c ∈ r, Text.isBlank c = true) (number : Nat) :
    linesOf number (l ++ (ws ++ r)) = linesOf number (l ++ r) := by
  rcases hend with rfl | hr
  · exact linesOf_congr (words_codeOf_blanks_append hws r) (commentOf_blanks_append hws r) number
  · have hboth : ∀ c ∈ ws ++ r, Text.isBlank c = true := by
      intro c hc
      rcases List.mem_append.1 hc with hc | hc
      · exact hws c hc
      · exact hr c hc
    refine linesOf_congr ?_ ?_ number
    · rw [words_codeOf_append_blanks hboth, words_codeOf_append_blanks hr]
    · rw [commentOf_append_blanks hboth, commentOf_append_blanks hr]

theorem linesOf_dropReturn (number : Nat) (raw : List Char) :
    linesOf number (Text.dropReturn raw) = linesOf number raw := by
  rw [Text.dropReturn]
  split
  · rename_i rest hreturn
    have hraw : raw = rest.reverse ++ (['\r'] ++ []) := by
      rw [← List.reverse_reverse raw, hreturn]
      simp
    rw [hraw, linesOf_insert (List.all_eq_true.1 rfl) (.inr (by simp)), List.append_nil]
  · rfl

/-- What ends the lines of a text has no part in its logical lines. -/
theorem linesFrom_endLines (number : Nat) (pieces : List (List Char)) :
    linesFrom number (Text.endLines pieces) = linesFrom number pieces := by
  fun_induction Text.endLines pieces generalizing number with
  | case1 => rfl
  | case2 piece hempty =>
    rw [List.isEmpty_iff.1 hempty]
    rfl
  | case3 piece hne => rfl
  | case4 piece pieces hne ih => rw [linesFrom, linesFrom, linesOf_dropReturn, ih]

/-- The logical lines of a text that is cut at its line feeds only. -/
def ofPieces (cs : List Char) : List Line :=
  linesFrom 1 (Text.splitWhere (· == '\n') cs)

theorem lines_eq_ofPieces (source : String) : lines source = ofPieces source.toList := by
  rw [lines, Text.lines, linesFrom_endLines, ofPieces]

/-! ## Logical lines after changes of layout -/

open Text (Relayout withReturns)

theorem ofPieces_insert {front ws back : List Char} (hws : Text.IsMargin ws)
    (hend : Text.BeginsLine front ∨ Text.EndsLine back) :
    ofPieces (front ++ (ws ++ back)) = ofPieces (front ++ back) := by
  obtain ⟨before, l, r, after, hfront, hback, hmid⟩ :=
    Text.exists_shared_piece (· == '\n') front back
  have hplain := hmid [] (by simp)
  have hwider := hmid ws fun c hc => by simpa using (hws c hc).2
  have hline : l = [] ∨ ∀ c ∈ r, Text.isBlank c = true :=
    hend.imp (fun h => h.piece_eq hfront) fun h => h.isBlank_of_mem hback
  rw [List.nil_append, List.nil_append] at hplain
  rw [ofPieces, ofPieces, hwider, hplain, linesFrom_append, linesFrom_append, linesFrom, linesFrom,
    linesOf_insert (fun c hc => (hws c hc).1) hline]

theorem ofPieces_withReturns (front cs : List Char) :
    ofPieces (front ++ withReturns cs) = ofPieces (front ++ cs) := by
  induction cs generalizing front with
  | nil => rfl
  | cons c cs ih =>
    by_cases hc : c = '\n'
    · subst hc
      have hend : Text.EndsLine ('\n' :: cs) := .inr (.inl ⟨cs, rfl⟩)
      have hreturn : Text.IsMargin ['\r'] := by
        intro c hc
        rw [List.mem_singleton.1 hc]
        decide
      calc ofPieces (front ++ withReturns ('\n' :: cs))
          = ofPieces (front ++ ['\r', '\n'] ++ withReturns cs) := by simp [withReturns]
        _ = ofPieces (front ++ (['\r'] ++ '\n' :: cs)) := by rw [ih]; simp
        _ = ofPieces (front ++ '\n' :: cs) := ofPieces_insert hreturn (.inr hend)
    · calc ofPieces (front ++ withReturns (c :: cs))
          = ofPieces (front ++ [c] ++ withReturns cs) := by simp [withReturns, hc]
        _ = ofPieces (front ++ c :: cs) := by rw [ih]; simp

theorem ofPieces_relayout {cs ds : List Char} (h : Relayout cs ds) : ofPieces ds = ofPieces cs := by
  cases h with
  | returns => exact ofPieces_withReturns [] cs
  | indent hfront hws => exact ofPieces_insert hws (.inl hfront)
  | trail hback hws => exact ofPieces_insert hws (.inr hback)

theorem ofPieces_relayouts {cs ds : List Char} (h : Relation.ReflTransGen Relayout cs ds) :
    ofPieces ds = ofPieces cs := by
  induction h with
  | refl => rfl
  | tail _ hstep ih => exact (ofPieces_relayout hstep).trans ih

/-- A text is read to the same tree, with the same line numbers and comments, or to the same fault, after
any changes of its layout. -/
theorem parse_of_relayout {source target : String}
    (h : Relation.ReflTransGen Relayout source.toList target.toList) : parse target = parse source := by
  rw [parse, lines_eq_ofPieces, ofPieces_relayouts h, ← lines_eq_ofPieces, ← parse]

/-- A comment alone on its line, a quote that stays open, and a last line without an end. -/
theorem parse_of_relayout_sample :
    ∃ program, parse "# far\nlabel \"a\nfw 1" = .ok program ∧
      parse "# far\r\n\tlabel \"a \r\r\nfw 1 " = .ok program := by
  have hreturns : Relayout "# far\nlabel \"a\nfw 1".toList "# far\r\nlabel \"a\r\nfw 1".toList :=
    .returns _
  have hindent : Relayout "# far\r\nlabel \"a\r\nfw 1".toList
      "# far\r\n\tlabel \"a\r\nfw 1".toList :=
    @Relayout.indent "# far\r\n".toList ['\t'] "label \"a\r\nfw 1".toList (.inr rfl) (by decide)
  have htrail : Relayout "# far\r\n\tlabel \"a\r\nfw 1".toList
      "# far\r\n\tlabel \"a \r\r\nfw 1".toList :=
    @Relayout.trail "# far\r\n\tlabel \"a".toList [' ', '\r'] "\r\nfw 1".toList
      (.inr (.inr ⟨_, rfl⟩)) (by decide)
  have hlast : Relayout "# far\r\n\tlabel \"a \r\r\nfw 1".toList
      "# far\r\n\tlabel \"a \r\r\nfw 1 ".toList :=
    @Relayout.trail "# far\r\n\tlabel \"a \r\r\nfw 1".toList [' '] [] (.inl rfl) (by decide)
  have hlayout := Relation.ReflTransGen.head hreturns (.head hindent (.head htrail (.single hlast)))
  obtain ⟨program, hparse⟩ : ∃ program, parse "# far\nlabel \"a\nfw 1" = .ok program := ⟨_, rfl⟩
  exact ⟨program, hparse, (parse_of_relayout hlayout).trans hparse⟩

end Program
end TurtleGraphics
