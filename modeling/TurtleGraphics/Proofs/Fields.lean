import TurtleGraphics.Text.Split

/-!
# TurtleGraphics.Proofs.Fields

Cutting and joining texts. A separator between two texts separates their pieces (`splitWhere_append`),
so the fields of joined texts are the fields of each (`fields_intercalate`), blanks at the ends of a
text add none (`fields_trim`), and a text of lines that are each ended by a line feed has these lines
(`lines_unlines`).
-/

namespace TurtleGraphics
namespace Text

/-! ## Pieces -/

theorem splitWhere_append {p : Char → Bool} {c : Char} (hc : p c = true) (a b : List Char) :
    splitWhere p (a ++ c :: b) = splitWhere p a ++ splitWhere p b := by
  induction a with
  | nil => simp [splitWhere, hc]
  | cons x a ih =>
    simp only [List.cons_append, splitWhere, ih]
    split
    · rfl
    · cases hs : splitWhere p a with
      | nil => exact absurd hs (splitWhere_ne_nil p a)
      | cons piece pieces => rfl

theorem splitWhere_none_append {p : Char → Bool} {a : List Char} (h : ∀ c ∈ a, p c = false)
    {b first : List Char} {pieces : List (List Char)} (hb : splitWhere p b = first :: pieces) :
    splitWhere p (a ++ b) = (a ++ first) :: pieces := by
  induction a with
  | nil => exact hb
  | cons c a ih =>
    have hc : p c = false := h c (by simp)
    rw [List.cons_append, splitWhere, ih fun x hx => h x (by simp [hx])]
    simp [hc]

theorem splitWhere_of_none {p : Char → Bool} {a : List Char} (h : ∀ c ∈ a, p c = false) :
    splitWhere p a = [a] := by
  have hsplit := splitWhere_none_append h (rfl : splitWhere p [] = [[]])
  rwa [List.append_nil] at hsplit

/-- A piece has no separator, and its characters are those of the text. -/
theorem mem_splitWhere {p : Char → Bool} {cs piece : List Char} (h : piece ∈ splitWhere p cs) :
    ∀ c ∈ piece, p c = false ∧ c ∈ cs := by
  induction cs generalizing piece with
  | nil =>
    simp only [splitWhere, List.mem_singleton] at h
    simp [h]
  | cons x cs ih =>
    intro c hc
    rw [splitWhere] at h
    split at h
    · rcases List.mem_cons.1 h with rfl | h
      · simp at hc
      · have := ih h c hc
        exact ⟨this.1, List.mem_cons_of_mem _ this.2⟩
    · rename_i hx
      cases hs : splitWhere p cs with
      | nil => exact absurd hs (splitWhere_ne_nil p cs)
      | cons first pieces =>
        rw [hs] at h
        rcases List.mem_cons.1 h with rfl | h
        · rcases List.mem_cons.1 hc with rfl | hc
          · exact ⟨by simpa using hx, by simp⟩
          · have := ih (show first ∈ splitWhere p cs by simp [hs]) c hc
            exact ⟨this.1, List.mem_cons_of_mem _ this.2⟩
        · have := ih (show piece ∈ splitWhere p cs by simp [hs, h]) c hc
          exact ⟨this.1, List.mem_cons_of_mem _ this.2⟩

/-! ## Fields -/

/-- A text that is one field: it has characters, and none of them is blank. -/
def IsField (f : List Char) : Prop :=
  f ≠ [] ∧ ∀ c ∈ f, isBlank c = false

instance (f : List Char) : Decidable (IsField f) :=
  @instDecidableAnd _ _ _ (List.decidableBAll _ f)

/-- Facts about all characters of a text that is given are checked one by one. -/
theorem forall_mem_of_all {p : Char → Prop} [DecidablePred p] {cs : List Char}
    (h : cs.all (fun c => decide (p c)) = true) : ∀ c ∈ cs, p c := by
  simpa using h

theorem isField_of_mem_fields {cs f : List Char} (h : f ∈ fields cs) : IsField f := by
  simp only [fields, List.mem_filter, Bool.not_eq_true', List.isEmpty_eq_false_iff] at h
  exact ⟨h.2, fun c hc => (mem_splitWhere h.1 c hc).1⟩

@[simp] theorem fields_nil : fields [] = [] := rfl

theorem fields_append_blank {c : Char} (hc : isBlank c = true) (a b : List Char) :
    fields (a ++ c :: b) = fields a ++ fields b := by
  simp [fields, splitWhere_append hc]

@[simp] theorem fields_append_space (a b : List Char) :
    fields (a ++ ' ' :: b) = fields a ++ fields b :=
  fields_append_blank rfl a b

theorem fields_blank_cons {c : Char} (hc : isBlank c = true) (cs : List Char) :
    fields (c :: cs) = fields cs :=
  fields_append_blank hc [] cs

theorem fields_of_isField {f : List Char} (h : IsField f) : fields f = [f] := by
  simp [fields, splitWhere_of_none h.2, h.1]

theorem fields_blanks_append {a : List Char} (h : ∀ c ∈ a, isBlank c = true) (b : List Char) :
    fields (a ++ b) = fields b := by
  induction a with
  | nil => rfl
  | cons c a ih =>
    rw [List.cons_append, fields_blank_cons (h c (by simp))]
    exact ih fun x hx => h x (by simp [hx])

theorem fields_append_blanks {b : List Char} (h : ∀ c ∈ b, isBlank c = true) (a : List Char) :
    fields (a ++ b) = fields a := by
  cases b with
  | nil => simp
  | cons c b =>
    rw [fields_append_blank (h c (by simp))]
    have hb := fields_blanks_append (a := b) (fun x hx => h x (by simp [hx])) []
    rw [List.append_nil] at hb
    simp [hb]

/-- What trimming takes off the start. -/
theorem exists_trimStart (cs : List Char) :
    ∃ front, (∀ c ∈ front, isBlank c = true) ∧ front ++ trimStart cs = cs :=
  ⟨cs.takeWhile isBlank, List.all_eq_true.1 List.all_takeWhile, List.takeWhile_append_dropWhile⟩

/-- What trimming takes off the end. -/
theorem exists_trimEnd (cs : List Char) :
    ∃ back, (∀ c ∈ back, isBlank c = true) ∧ trimEnd cs ++ back = cs := by
  obtain ⟨front, hfront, hcs⟩ := exists_trimStart cs.reverse
  refine ⟨front.reverse, by simpa using hfront, ?_⟩
  rw [trimEnd, ← trimStart, ← List.reverse_append, hcs, List.reverse_reverse]

theorem fields_trimStart (cs : List Char) : fields (trimStart cs) = fields cs := by
  obtain ⟨front, hfront, hcs⟩ := exists_trimStart cs
  conv => rhs; rw [← hcs]
  rw [fields_blanks_append hfront]

theorem fields_trimEnd (cs : List Char) : fields (trimEnd cs) = fields cs := by
  obtain ⟨back, hback, hcs⟩ := exists_trimEnd cs
  conv => rhs; rw [← hcs]
  rw [fields_append_blanks hback]

theorem fields_trim (cs : List Char) : fields (trim cs) = fields cs := by
  rw [trim, fields_trimEnd, fields_trimStart]

/-! ## Trimming -/

theorem not_isBlank_of_head_trimStart {cs : List Char} {c : Char}
    (h : (trimStart cs).head? = some c) : isBlank c = false := by
  have := List.head?_dropWhile_not isBlank cs
  rw [trimStart] at h
  rw [h] at this
  exact this

theorem not_isBlank_of_getLast_trimEnd {cs : List Char} {c : Char}
    (h : (trimEnd cs).getLast? = some c) : isBlank c = false := by
  rw [trimEnd, List.getLast?_reverse] at h
  exact not_isBlank_of_head_trimStart h

theorem trimStart_eq_self {cs : List Char} (h : ∀ c, cs.head? = some c → isBlank c = false) :
    trimStart cs = cs := by
  cases cs with
  | nil => rfl
  | cons c cs => simp [trimStart, h c rfl]

theorem trimEnd_eq_self {cs : List Char} (h : ∀ c, cs.getLast? = some c → isBlank c = false) :
    trimEnd cs = cs := by
  have : trimStart cs.reverse = cs.reverse := trimStart_eq_self (by simpa using h)
  rw [trimStart] at this
  rw [trimEnd, this, List.reverse_reverse]

theorem trimEnd_isPrefix (cs : List Char) : trimEnd cs <+: cs := by
  rw [← List.reverse_suffix, trimEnd, List.reverse_reverse]
  exact List.dropWhile_suffix _

theorem mem_trim {cs : List Char} {c : Char} (h : c ∈ trim cs) : c ∈ cs :=
  (List.dropWhile_suffix _).subset ((trimEnd_isPrefix _).subset h)

theorem trim_trim (cs : List Char) : trim (trim cs) = trim cs := by
  have hhead : ∀ c, (trim cs).head? = some c → isBlank c = false := by
    intro c hc
    obtain ⟨t, ht⟩ := trimEnd_isPrefix (trimStart cs)
    refine @not_isBlank_of_head_trimStart cs c ?_
    rw [← ht]
    change (trim cs ++ t).head? = some c
    rw [List.head?_append, hc]
    rfl
  rw [trim, trimStart_eq_self hhead]
  exact trimEnd_eq_self fun c => not_isBlank_of_getLast_trimEnd

theorem trim_space_cons (cs : List Char) : trim (' ' :: cs) = trim cs := rfl

theorem trim_blanks_append {a : List Char} (h : ∀ c ∈ a, isBlank c = true) (b : List Char) :
    trim (a ++ b) = trim b := by
  rw [trim, trimStart, List.dropWhile_append_of_pos h, ← trimStart, ← trim]

theorem trimEnd_append_blanks {b : List Char} (h : ∀ c ∈ b, isBlank c = true) (a : List Char) :
    trimEnd (a ++ b) = trimEnd a := by
  rw [trimEnd, List.reverse_append, List.dropWhile_append_of_pos (by simpa using h), ← trimEnd]

theorem trim_append_blanks {b : List Char} (h : ∀ c ∈ b, isBlank c = true) (a : List Char) :
    trim (a ++ b) = trim a := by
  induction a with
  | nil => simpa using trim_blanks_append h []
  | cons c a ih =>
    by_cases hc : isBlank c = true
    · have hone : ∀ x ∈ [c], isBlank x = true := by simpa using hc
      rw [List.cons_append, ← List.singleton_append, trim_blanks_append hone, ih,
        ← trim_blanks_append hone a, List.singleton_append]
    · have hstart : ∀ cs, trimStart (c :: cs) = c :: cs := fun cs => by simp [trimStart, hc]
      rw [trim, trim, List.cons_append, hstart, hstart, ← List.cons_append, trimEnd_append_blanks h]

theorem trim_trimEnd (cs : List Char) : trim (trimEnd cs) = trim cs := by
  obtain ⟨back, hback, hcs⟩ := exists_trimEnd cs
  conv => rhs; rw [← hcs]
  rw [trim_append_blanks hback]

/-! ## Joining -/

/-- Joining texts by spaces joins their lists of fields. -/
theorem fields_intercalate (ts : List (List Char)) :
    fields ([' '].intercalate ts) = ts.flatMap fields := by
  induction ts with
  | nil => rfl
  | cons t ts ih =>
    cases ts with
    | nil => simp
    | cons u ts => simpa using ih

theorem flatMap_fields {fs : List (List Char)} (h : ∀ f ∈ fs, IsField f) : fs.flatMap fields = fs := by
  induction fs with
  | nil => rfl
  | cons f fs ih =>
    rw [List.flatMap_cons, fields_of_isField (h f (by simp)), ih fun x hx => h x (by simp [hx])]
    rfl

/-- Joining by spaces, as putting a space in front of each text and dropping the first one. -/
theorem intercalate_eq_tail (ts : List (List Char)) :
    [' '].intercalate ts = (ts.flatMap fun t => ' ' :: t).tail := by
  induction ts with
  | nil => rfl
  | cons t ts ih =>
    cases ts with
    | nil => simp
    | cons u ts => simpa using ih

theorem mem_intercalate {ts : List (List Char)} {c : Char} (h : c ∈ [' '].intercalate ts) :
    c = ' ' ∨ ∃ t ∈ ts, c ∈ t := by
  rw [intercalate_eq_tail] at h
  obtain ⟨t, ht, hc⟩ := List.mem_flatMap.1 (List.mem_of_mem_tail h)
  rcases List.mem_cons.1 hc with rfl | hc
  · exact .inl rfl
  · exact .inr ⟨t, ht, hc⟩

theorem toList_joinWords (ws : List String) :
    (joinWords ws).toList = [' '].intercalate (ws.map String.toList) := by
  simp [joinWords]

/-! ## Counting

Characters that are not blank are neither lost nor added by cutting and joining. -/

theorem count_splitWhere {p : Char → Bool} {c : Char} (hc : p c = false) (cs : List Char) :
    (splitWhere p cs).flatten.count c = cs.count c := by
  induction cs with
  | nil => rfl
  | cons x cs ih =>
    rw [splitWhere]
    split
    · rename_i hx
      have hxc : (x == c) = false := by
        simp only [beq_eq_false_iff_ne]
        rintro rfl
        simp [hc] at hx
      simp [List.count_cons, hxc, ih]
    · cases hs : splitWhere p cs with
      | nil => exact absurd hs (splitWhere_ne_nil p cs)
      | cons piece pieces =>
        rw [hs] at ih
        rw [List.flatten_cons] at ih ⊢
        rw [List.cons_append, List.count_cons, List.count_cons, ih]

theorem count_fields {c : Char} (hc : isBlank c = false) (cs : List Char) :
    (fields cs).flatten.count c = cs.count c := by
  rw [fields, List.flatten_filter_not_isEmpty, count_splitWhere hc cs]

theorem fields_eq_nil_iff {cs : List Char} : fields cs = [] ↔ ∀ c ∈ cs, isBlank c = true := by
  constructor
  · intro h c hc
    cases hb : isBlank c with
    | true => rfl
    | false =>
      have hcount := count_fields hb cs
      rw [h] at hcount
      exact absurd hc (List.count_eq_zero.1 hcount.symm)
  · intro h
    have := fields_append_blanks h []
    simpa using this

theorem fields_ne_nil {cs : List Char} (h : ∃ c ∈ cs, isBlank c = false) : fields cs ≠ [] := by
  obtain ⟨c, hc, hblank⟩ := h
  intro hnil
  rw [fields_eq_nil_iff.1 hnil c hc] at hblank
  cases hblank

theorem trim_ne_nil {cs : List Char} (h : ∃ c ∈ cs, isBlank c = false) : trim cs ≠ [] := by
  intro hnil
  exact fields_ne_nil h (by rw [← fields_trim, hnil]; rfl)

/-- Of two texts only the last is trimmed at its end, if something of it remains. -/
theorem trimEnd_append {b : List Char} (h : ∃ c ∈ b, isBlank c = false) (a : List Char) :
    trimEnd (a ++ b) = a ++ trimEnd b := by
  have hne : trimEnd b ≠ [] := by
    intro hnil
    exact fields_ne_nil h (by rw [← fields_trimEnd, hnil]; rfl)
  rw [trimEnd, List.reverse_append, List.dropWhile_append, if_neg, List.reverse_append,
    List.reverse_reverse, ← trimEnd]
  simpa [trimEnd] using hne

theorem count_intercalate {c : Char} (hc : c ≠ ' ') (ts : List (List Char)) :
    ([' '].intercalate ts).count c = ts.flatten.count c := by
  induction ts with
  | nil => rfl
  | cons t ts ih =>
    cases ts with
    | nil => simp
    | cons u ts =>
      rw [List.intercalate_cons_cons, List.append_assoc, List.count_append, List.singleton_append,
        List.count_cons_of_ne hc.symm, ih, ← List.count_append, ← List.flatten_cons]

/-! ## Lines -/

/-- A text that can stand on one line: it has no line feed, and no carriage return at its end. -/
def IsLine (l : List Char) : Prop :=
  '\n' ∉ l ∧ l.getLast? ≠ some '\r'

theorem dropReturn_of_isLine {l : List Char} (h : IsLine l) : dropReturn l = l := by
  rw [dropReturn]
  split
  · rename_i rest hr
    have : l.getLast? = some '\r' := by rw [← List.head?_reverse, hr]; rfl
    exact absurd this h.2
  · rfl

theorem splitWhere_of_isLine {l : List Char} (h : IsLine l) : splitWhere (· == '\n') l = [l] := by
  refine splitWhere_of_none fun c hc => ?_
  rw [beq_eq_false_iff_ne]
  rintro rfl
  exact h.1 hc

/-- The first line of a text, and the lines after it. -/
theorem lines_append_feed {l : List Char} (h : IsLine l) (rest : List Char) :
    lines (l ++ '\n' :: rest) = l :: lines rest := by
  simp only [lines]
  rw [splitWhere_append (by rfl), splitWhere_of_isLine h]
  cases hs : splitWhere (· == '\n') rest with
  | nil => exact absurd hs (splitWhere_ne_nil _ _)
  | cons piece pieces => simp [endLines, dropReturn_of_isLine h]

theorem lines_of_isLine {l : List Char} (h : IsLine l) (hne : l ≠ []) : lines l = [l] := by
  rw [lines, splitWhere_of_isLine h, endLines, if_neg (by simpa using hne)]

theorem lines_unlines {ls : List (List Char)} (h : ∀ l ∈ ls, IsLine l) :
    lines (ls.flatMap (· ++ ['\n'])) = ls := by
  induction ls with
  | nil => rfl
  | cons l ls ih =>
    have hrest := ih fun x hx => h x (by simp [hx])
    rw [List.flatMap_cons, List.append_assoc, List.singleton_append,
      lines_append_feed (h l (by simp)), hrest]

theorem lines_intercalate {ls : List (List Char)} (h : ∀ l ∈ ls, IsLine l) (hne : ∀ l ∈ ls, l ≠ []) :
    lines (['\n'].intercalate ls) = ls := by
  induction ls with
  | nil => rfl
  | cons l ls ih =>
    have hl := h l (by simp)
    have hrest := ih (fun x hx => h x (by simp [hx])) fun x hx => hne x (by simp [hx])
    cases ls with
    | nil => simpa using lines_of_isLine hl (hne l (by simp))
    | cons next ls =>
      rw [List.intercalate_cons_cons, List.append_assoc, List.singleton_append,
        lines_append_feed hl, hrest]

theorem mem_dropReturn {l : List Char} {c : Char} (h : c ∈ dropReturn l) : c ∈ l := by
  rw [dropReturn] at h
  split at h
  · rename_i rest hr
    rw [← List.mem_reverse, hr]
    exact List.mem_cons_of_mem _ (by simpa using h)
  · exact h

theorem mem_endLines {pieces : List (List Char)} {l : List Char} (h : l ∈ endLines pieces) :
    ∃ piece ∈ pieces, ∀ c ∈ l, c ∈ piece := by
  fun_induction endLines pieces with
  | case1 => simp at h
  | case2 piece hp => simp at h
  | case3 piece hp =>
    simp only [List.mem_singleton] at h
    exact ⟨piece, by simp, by simp [h]⟩
  | case4 piece pieces hne ih =>
    rcases List.mem_cons.1 h with rfl | h
    · exact ⟨piece, by simp, fun c hc => mem_dropReturn hc⟩
    · obtain ⟨q, hq, hc⟩ := ih h
      exact ⟨q, by simp [hq], hc⟩

theorem not_mem_of_mem_lines {cs l : List Char} (h : l ∈ lines cs) : '\n' ∉ l := by
  obtain ⟨piece, hp, hsub⟩ := mem_endLines h
  intro hc
  have := (mem_splitWhere hp '\n' (hsub _ hc)).1
  simp at this

end Text
end TurtleGraphics
