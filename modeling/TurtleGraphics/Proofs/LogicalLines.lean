import TurtleGraphics.Proofs.Wording

/-!
# TurtleGraphics.Proofs.LogicalLines

What a source line is cut into. `cutComment` is described by what it does to a text that goes on
(`cutComment_append`), so that blanks at the ends of a line are no part of its words and its comment.
`runs` is described by the shape of its runs (`isRun_of_mem_runs`) and by the fact that it keeps all words
in order (`flatten_runs`). Together they say what a logical line can look like (`Line.Formed`) and that
the logical lines of a source line have all words of its code (`flatMap_words_linesOf`).
-/

namespace TurtleGraphics
namespace Program

/-! ## Comments -/

/-- Whether a text ends inside double quotes, if `quoted` says whether it starts inside them. -/
def quotedAfter : Bool → List Char → Bool
  | quoted, [] => quoted
  | quoted, c :: cs => quotedAfter (if c == '"' then !quoted else quoted) cs

theorem cutComment_fst_of_none {quoted : Bool} {cs : List Char}
    (h : (cutComment quoted cs).2 = none) : (cutComment quoted cs).1 = cs := by
  induction cs generalizing quoted with
  | nil => rfl
  | cons c cs ih =>
    rw [cutComment] at h ⊢
    split at h
    · cases h
    · rename_i hc
      rw [if_neg hc]
      exact congrArg (c :: ·) (ih h)

theorem eq_of_cutComment_some {quoted : Bool} {cs text : List Char}
    (h : (cutComment quoted cs).2 = some text) : cs = (cutComment quoted cs).1 ++ '#' :: text := by
  induction cs generalizing quoted with
  | nil => cases h
  | cons c cs ih =>
    rw [cutComment] at h ⊢
    split at h
    · rename_i hc
      rw [if_pos hc]
      simp only [Bool.and_eq_true, beq_iff_eq] at hc
      cases h
      simp [hc.1]
    · rename_i hc
      rw [if_neg hc]
      exact congrArg (c :: ·) (ih h)

/-- A text without comment is code, whatever follows it. -/
theorem cutComment_append {quoted : Bool} {a : List Char} (h : (cutComment quoted a).2 = none)
    (b : List Char) :
    cutComment quoted (a ++ b) = (a ++ (cutComment (quotedAfter quoted a) b).1,
      (cutComment (quotedAfter quoted a) b).2) := by
  induction a generalizing quoted with
  | nil => rfl
  | cons c a ih =>
    rw [cutComment] at h
    rw [List.cons_append, cutComment, quotedAfter]
    split at h
    · cases h
    · rename_i hc
      rw [if_neg hc, ih h]
      rfl

/-- A comment runs on over whatever follows it. -/
theorem cutComment_append_of_some {quoted : Bool} {a text : List Char}
    (h : (cutComment quoted a).2 = some text) (b : List Char) :
    cutComment quoted (a ++ b) = ((cutComment quoted a).1, some (text ++ b)) := by
  induction a generalizing quoted with
  | nil => cases h
  | cons c a ih =>
    rw [cutComment] at h
    rw [List.cons_append, cutComment, cutComment]
    split at h
    · rename_i hc
      cases h
      rw [if_pos hc, if_pos hc]
    · rename_i hc
      rw [if_neg hc, if_neg hc, ih h]

theorem cutComment_of_plain {quoted : Bool} {cs : List Char} (hq : '"' ∉ cs)
    (hh : quoted = false → '#' ∉ cs) :
    (cutComment quoted cs).2 = none ∧ quotedAfter quoted cs = quoted := by
  induction cs generalizing quoted with
  | nil => exact ⟨rfl, rfl⟩
  | cons c cs ih =>
    have hcq : (c == '"') = false := by
      simp only [beq_eq_false_iff_ne]
      rintro rfl
      exact hq (by simp)
    have hch : (c == '#' && !quoted) = false := by
      cases quoted with
      | true => simp
      | false =>
        have : c ≠ '#' := by
          rintro rfl
          exact hh rfl (by simp)
        simp [this]
    have := @ih quoted (fun h => hq (by simp [h])) fun h hm => hh h (by simp [hm])
    simpa [cutComment, quotedAfter, hcq, hch] using this

theorem quotedAfter_append (quoted : Bool) (a b : List Char) :
    quotedAfter quoted (a ++ b) = quotedAfter (quotedAfter quoted a) b := by
  induction a generalizing quoted with
  | nil => rfl
  | cons c a ih => exact ih _

/-- A text with no comment in it that leaves no quote open. -/
def Neutral (cs : List Char) : Prop :=
  (cutComment false cs).2 = none ∧ quotedAfter false cs = false

theorem Neutral.append {a b : List Char} (ha : Neutral a) (hb : Neutral b) : Neutral (a ++ b) := by
  constructor
  · rw [cutComment_append ha.1, ha.2]
    exact hb.1
  · rw [quotedAfter_append, ha.2]
    exact hb.2

theorem neutral_joinWords {ws : List String} (h : ∀ w ∈ ws, Neutral w.toList) :
    Neutral (Text.joinWords ws).toList := by
  rw [Text.toList_joinWords]
  induction ws with
  | nil => exact ⟨rfl, rfl⟩
  | cons w ws ih =>
    have hw := h w (by simp)
    have hws := ih fun x hx => h x (by simp [hx])
    cases ws with
    | nil => simpa using hw
    | cons v ws =>
      rw [List.map_cons, List.map_cons, List.intercalate_cons_cons]
      exact (hw.append ⟨rfl, rfl⟩).append hws

/-- A comment as it is kept: without blanks at its ends, and on one line. -/
def Tidy (text : String) : Prop :=
  Text.trim text.toList = text.toList ∧ '\n' ∉ text.toList

theorem Tidy.not_isBlank_of_getLast {text : String} (h : Tidy text) {c : Char}
    (hc : text.toList.getLast? = some c) : Text.isBlank c = false :=
  Text.not_isBlank_of_getLast_trimEnd (by rw [← Text.trim, h.1, hc])

theorem tidy_of_commentOf {raw : List Char} (hraw : '\n' ∉ raw) {text : String}
    (h : commentOf raw = some text) : Tidy text := by
  simp only [commentOf, Option.map_eq_some_iff] at h
  obtain ⟨rest, hr, rfl⟩ := h
  refine ⟨by rw [String.toList_ofList, Text.trim_trim], fun hm => hraw ?_⟩
  rw [eq_of_cutComment_some hr, List.mem_append]
  rw [String.toList_ofList] at hm
  exact .inr (List.mem_cons_of_mem _ (Text.mem_trim hm))

/-! ## Blanks at the ends of a source line -/

section Blanks

variable {ws : List Char} (hws : ∀ c ∈ ws, Text.isBlank c = true)

include hws

theorem cutComment_blanks_append (quoted : Bool) (cs : List Char) :
    cutComment quoted (ws ++ cs) = (ws ++ (cutComment quoted cs).1, (cutComment quoted cs).2) := by
  have hquote : '"' ∉ ws := fun hmem => nomatch hws _ hmem
  have hhash : '#' ∉ ws := fun hmem => nomatch hws _ hmem
  obtain ⟨hcut, hquoted⟩ := @cutComment_of_plain quoted ws hquote fun _ => hhash
  rw [cutComment_append hcut, hquoted]

/-- Blanks behind a line belong to its comment, or to its code if it has none. -/
theorem cutComment_append_blanks (raw : List Char) :
    ∃ gap, (∀ c ∈ gap, Text.isBlank c = true) ∧
      (cutComment false (raw ++ ws)).1 = (cutComment false raw).1 ++ gap ∧
      (cutComment false (raw ++ ws)).2 = (cutComment false raw).2.map (· ++ ws) := by
  cases hcut : (cutComment false raw).2 with
  | none =>
    have hgap := cutComment_blanks_append hws (quotedAfter false raw) []
    rw [List.append_nil] at hgap
    refine ⟨ws, hws, ?_, ?_⟩
    · rw [cutComment_append hcut, hgap, cutComment_fst_of_none hcut]
      simp [cutComment]
    · rw [cutComment_append hcut, hgap]
      rfl
  | some text =>
    refine ⟨[], by simp, ?_, ?_⟩
    · rw [cutComment_append_of_some hcut, List.append_nil]
    · rw [cutComment_append_of_some hcut]
      rfl

theorem words_codeOf_blanks_append (raw : List Char) :
    words (codeOf (ws ++ raw)) = words (codeOf raw) := by
  rw [codeOf, words_trim, cutComment_blanks_append hws, words, Text.fields_blanks_append hws, ← words,
    ← words_trim, ← codeOf]

theorem commentOf_blanks_append (raw : List Char) : commentOf (ws ++ raw) = commentOf raw := by
  rw [commentOf, cutComment_blanks_append hws, ← commentOf]

theorem words_codeOf_append_blanks (raw : List Char) :
    words (codeOf (raw ++ ws)) = words (codeOf raw) := by
  obtain ⟨gap, hgap, hcode, -⟩ := cutComment_append_blanks hws raw
  rw [codeOf, words_trim, hcode, words, Text.fields_append_blanks hgap, ← words, ← words_trim, ← codeOf]

theorem commentOf_append_blanks (raw : List Char) : commentOf (raw ++ ws) = commentOf raw := by
  obtain ⟨-, -, -, hcomment⟩ := cutComment_append_blanks hws raw
  rw [commentOf, hcomment, commentOf, Option.map_map]
  refine congrArg (Option.map · _) (funext fun text => ?_)
  rw [Function.comp_apply, Text.trim_append_blanks hws]

end Blanks

/-! ## Runs -/

/-- What a run can be: `end` alone, or words without `end` among which `do` can only be the last. -/
def IsRun (r : List String) : Prop :=
  r = ["end"] ∨ r ≠ [] ∧ "end" ∉ r ∧ "do" ∉ r.dropLast

theorem IsRun.ne_nil {r : List String} (h : IsRun r) : r ≠ [] := by
  rcases h with rfl | ⟨hne, -⟩
  · simp
  · exact hne

theorem flatten_runs (run ws : List String) : (runs run ws).flatten = run ++ ws := by
  induction ws generalizing run with
  | nil =>
    rw [runs]
    split
    · rename_i hr
      simp [List.isEmpty_iff.1 hr]
    · simp
  | cons w ws ih =>
    rw [runs]
    split
    · rename_i hw
      have hw : w = "end" := by simpa using hw
      split
      · rename_i hr
        simp [List.isEmpty_iff.1 hr, hw, ih]
      · simp [hw, ih]
    · split
      · rename_i hw
        have hw : w = "do" := by simpa using hw
        simp [hw, ih]
      · simp [ih]

theorem mem_runs_nil {run r : List String} (h : r ∈ runs run []) : r = run ∧ run ≠ [] := by
  rw [runs] at h
  split at h
  · cases h
  · rename_i hne
    exact ⟨List.mem_singleton.1 h, by simpa using hne⟩

/-- What the next word does to the run that is being read. -/
theorem mem_runs_cons {run ws r : List String} {w : String} (h : r ∈ runs run (w :: ws)) :
    w = "end" ∧ (r = ["end"] ∨ r = run ∧ run ≠ [] ∨ r ∈ runs [] ws) ∨
      w = "do" ∧ (r = run ++ ["do"] ∨ r ∈ runs [] ws) ∨
      w ≠ "end" ∧ w ≠ "do" ∧ r ∈ runs (run ++ [w]) ws := by
  rw [runs] at h
  split at h
  · rename_i hw
    refine .inl ⟨by simpa using hw, ?_⟩
    split at h
    · exact (List.mem_cons.1 h).imp_right .inr
    · rename_i hne
      rcases List.mem_cons.1 h with rfl | h
      · exact .inr (.inl ⟨rfl, by simpa using hne⟩)
      · exact (List.mem_cons.1 h).imp_right .inr
  · rename_i hend
    split at h
    · rename_i hw
      exact .inr (.inl ⟨by simpa using hw, List.mem_cons.1 h⟩)
    · rename_i hdo
      exact .inr (.inr ⟨by simpa using hend, by simpa using hdo, h⟩)

theorem isRun_of_mem_runs (run ws : List String) (hrun : "end" ∉ run ∧ "do" ∉ run) :
    ∀ r ∈ runs run ws, IsRun r := by
  have hwhole : ∀ {run : List String}, "end" ∉ run ∧ "do" ∉ run → run ≠ [] → IsRun run :=
    fun hrun hne => .inr ⟨hne, hrun.1, fun h => hrun.2 ((List.dropLast_sublist _).subset h)⟩
  induction ws generalizing run with
  | nil =>
    intro r hm
    obtain ⟨rfl, hne⟩ := mem_runs_nil hm
    exact hwhole hrun hne
  | cons w ws ih =>
    intro r hm
    rcases mem_runs_cons hm with ⟨-, rfl | ⟨rfl, hne⟩ | hm⟩ | ⟨-, rfl | hm⟩ | ⟨hend, hdo, hm⟩
    · exact .inl rfl
    · exact hwhole hrun hne
    · exact ih [] (by simp) r hm
    · exact .inr ⟨by simp, by simp [hrun.1], by simpa using hrun.2⟩
    · exact ih [] (by simp) r hm
    · exact ih (run ++ [w]) ⟨by simp [hrun.1, hend.symm], by simp [hrun.2, hdo.symm]⟩ r hm

theorem wording_of_mem_runs (run ws : List String) (h : Wording (run ++ ws)) :
    ∀ r ∈ runs run ws, Wording r := by
  induction ws generalizing run with
  | nil =>
    intro r hm
    obtain ⟨rfl, -⟩ := mem_runs_nil hm
    simpa using h
  | cons w ws ih =>
    have hone : Wording [w] := Wording.left (a := [w]) h.right
    have hrun : Wording (run ++ [w]) := Wording.left (b := ws) (by simpa using h)
    intro r hm
    rcases mem_runs_cons hm with ⟨rfl, rfl | ⟨rfl, -⟩ | hm⟩ | ⟨rfl, rfl | hm⟩ | ⟨-, -, hm⟩
    · exact hone
    · exact h.left
    · exact ih [] h.right.tail r hm
    · exact hrun
    · exact ih [] h.right.tail r hm
    · exact ih (run ++ [w]) (by simpa using h) r hm

theorem runs_of_open (run ws : List String) (hne : run ++ ws ≠ []) (he : "end" ∉ ws)
    (hd : "do" ∉ ws.dropLast) : runs run ws = [run ++ ws] := by
  induction ws generalizing run with
  | nil => simpa [runs] using hne
  | cons w ws ih =>
    have hw : w ≠ "end" := fun h => he (by simp [h])
    have he' : "end" ∉ ws := fun h => he (by simp [h])
    rw [runs, if_neg (by simpa using hw)]
    cases ws with
    | nil =>
      split
      · rename_i hdo
        have hdo : w = "do" := by simpa using hdo
        simp [hdo, runs]
      · simp [runs]
    | cons v ws =>
      have hdo : w ≠ "do" := fun h => hd (by simp [h])
      have hd' : "do" ∉ (v :: ws).dropLast := fun h => hd (by simp [h])
      rw [if_neg (by simpa using hdo), ih (run ++ [w]) (by simp) he' hd']
      simp

theorem runs_of_isRun {r : List String} (h : IsRun r) : runs [] r = [r] := by
  rcases h with rfl | ⟨hne, he, hd⟩
  · rfl
  · exact runs_of_open [] r hne he hd

/-! ## Lines -/

/-- What the reader of blocks can rely on about a logical line. -/
structure Line.Formed (l : Line) : Prop where
  wording : Wording l.words
  run : l.words ≠ [] → IsRun l.words
  commented : l.words = [] → l.comment.isSome
  tidy : ∀ text, l.comment = some text → Tidy text

theorem map_words_numberRuns (number : Nat) (comment : Option String) (rs : List (List String)) :
    (numberRuns number comment rs).map Line.words = rs := by
  induction rs generalizing comment with
  | nil => rfl
  | cons r rs ih =>
    rw [numberRuns]
    split <;> simp [ih]

theorem comment_of_mem_numberRuns {number : Nat} {comment : Option String}
    {rs : List (List String)} {l : Line} (h : l ∈ numberRuns number comment rs) :
    l.comment = none ∨ l.comment = comment := by
  induction rs generalizing comment with
  | nil => cases h
  | cons r rs ih =>
    rw [numberRuns] at h
    split at h
    · rcases List.mem_cons.1 h with rfl | h
      · exact .inl rfl
      · exact ih h
    · rcases List.mem_cons.1 h with rfl | h
      · exact .inr rfl
      · exact .inl (by simpa using ih h)

theorem linesOf_congr {raw raw' : List Char} (hwords : words (codeOf raw) = words (codeOf raw'))
    (hcomment : commentOf raw = commentOf raw') (number : Nat) :
    linesOf number raw = linesOf number raw' := by
  rw [linesOf, hwords, hcomment, linesOf]

theorem linesOf_of_comment {number : Nat} {raw : List Char} {text : String}
    (hw : words (codeOf raw) = []) (hc : commentOf raw = some text) :
    linesOf number raw = [⟨number, [], some text⟩] := by
  simp [linesOf, hw, hc]

theorem linesOf_of_blank {number : Nat} {raw : List Char} (hw : words (codeOf raw) = [])
    (hc : commentOf raw = none) : linesOf number raw = [] := by
  simp [linesOf, hw, hc, runs, numberRuns]

theorem linesOf_of_code {number : Nat} {raw : List Char} (hw : words (codeOf raw) ≠ []) :
    linesOf number raw = numberRuns number (commentOf raw) (runs [] (words (codeOf raw))) := by
  rw [linesOf]
  split
  · rename_i h _
    exact absurd h hw
  · rfl

/-- The logical lines of a source line have the words of its code, in order. -/
theorem flatMap_words_linesOf (number : Nat) (raw : List Char) :
    (linesOf number raw).flatMap Line.words = words (codeOf raw) := by
  by_cases hw : words (codeOf raw) = []
  · cases hc : commentOf raw with
    | none => simp [linesOf_of_blank hw hc, hw]
    | some text => simp [linesOf_of_comment hw hc, hw]
  · rw [linesOf_of_code hw, List.flatMap_def, map_words_numberRuns, flatten_runs]
    rfl

theorem linesOf_ne_nil {number : Nat} {raw : List Char}
    (h : words (codeOf raw) ≠ [] ∨ (commentOf raw).isSome) : linesOf number raw ≠ [] := by
  by_cases hw : words (codeOf raw) = []
  · obtain ⟨text, hc⟩ := Option.isSome_iff_exists.1 (h.resolve_left fun hn => hn hw)
    simp [linesOf_of_comment hw hc]
  · intro hn
    have := flatMap_words_linesOf number raw
    rw [hn] at this
    exact hw this.symm

theorem linesOf_of_isRun {number : Nat} {raw : List Char} (h : IsRun (words (codeOf raw)))
    (he : words (codeOf raw) ≠ ["end"]) :
    linesOf number raw = [⟨number, words (codeOf raw), commentOf raw⟩] := by
  have hne : words (codeOf raw) ≠ [] := by
    rcases h with h | h
    · exact absurd h he
    · exact h.1
  rw [linesOf_of_code hne, runs_of_isRun h, numberRuns, if_neg (by simpa using he)]
  rfl

theorem mem_runs_of_mem_linesOf {number : Nat} {raw : List Char} (hw : words (codeOf raw) ≠ []) {l : Line}
    (h : l ∈ linesOf number raw) : l.words ∈ runs [] (words (codeOf raw)) := by
  rw [linesOf_of_code hw] at h
  rw [← map_words_numberRuns number (commentOf raw) (runs [] (words (codeOf raw)))]
  exact List.mem_map_of_mem h

theorem formed_of_mem_linesOf {number : Nat} {raw : List Char} (hraw : '\n' ∉ raw) {l : Line}
    (h : l ∈ linesOf number raw) : l.Formed := by
  by_cases hw : words (codeOf raw) = []
  · cases hc : commentOf raw with
    | none => simp [linesOf_of_blank hw hc] at h
    | some text =>
      rw [linesOf_of_comment hw hc, List.mem_singleton] at h
      subst h
      refine ⟨.nil, fun hn => absurd rfl hn, fun _ => rfl, ?_⟩
      intro text' ht
      cases ht
      exact tidy_of_commentOf hraw hc
  · have hr := mem_runs_of_mem_linesOf hw h
    have hrun := isRun_of_mem_runs [] _ (by simp) l.words hr
    refine ⟨wording_of_mem_runs [] _ (wording_words _) l.words hr, fun _ => hrun,
      fun hn => absurd hn hrun.ne_nil, ?_⟩
    intro text ht
    rw [linesOf_of_code hw] at h
    rcases comment_of_mem_numberRuns h with hc | hc
    · rw [hc] at ht; cases ht
    · exact tidy_of_commentOf hraw (hc ▸ ht)

theorem formed_of_mem_linesFrom {number : Nat} {raws : List (List Char)}
    (hraws : ∀ raw ∈ raws, '\n' ∉ raw) {l : Line} (h : l ∈ linesFrom number raws) : l.Formed := by
  induction raws generalizing number with
  | nil => cases h
  | cons raw raws ih =>
    rcases List.mem_append.1 h with h | h
    · exact formed_of_mem_linesOf (hraws raw (by simp)) h
    · exact ih (fun x hx => hraws x (by simp [hx])) h

theorem formed_of_mem_lines {source : String} {l : Line} (h : l ∈ lines source) : l.Formed :=
  formed_of_mem_linesFrom (fun _ hr => Text.not_mem_of_mem_lines hr) h

theorem linesFrom_append (number : Nat) (a b : List (List Char)) :
    linesFrom number (a ++ b) = linesFrom number a ++ linesFrom (number + a.length) b := by
  induction a generalizing number with
  | nil => rfl
  | cons raw a ih =>
    rw [List.cons_append, linesFrom, linesFrom, ih, List.append_assoc, List.length_cons]
    congr 3
    omega

end Program
end TurtleGraphics
