import TurtleGraphics.Proofs.Headings

/-!
# TurtleGraphics.Proofs.RoundTrip

Programs that survive being printed and read. A tree of plain and quoted words
(`Statement.WellFormed`) is read back from its text as it was, comments included; only line numbers
can change (`parse_render_of_wellFormed`).
-/

namespace TurtleGraphics
namespace Program

open Text (fields isBlank joinWords)

/-! ## Plain and quoted words -/

/-- A word in which no character and no keyword has a meaning to the reader of lines. -/
def PlainWord (w : String) : Prop :=
  w ≠ "" ∧ (∀ c ∈ w.toList, isBlank c = false ∧ c ≠ '"' ∧ c ≠ '#') ∧ w ≠ "do" ∧ w ≠ "end"

/-- The inside of a quoted text in which all blanks are single spaces. -/
structure QuotedText (t : List Char) : Prop where
  noQuote : '"' ∉ t
  spaces : ∀ c ∈ t, isBlank c = true → c = ' '
  single : ¬[' ', ' '] <:+: t

/-- A text in double quotes in which all blanks are single spaces. -/
def QuotedWord (w : String) : Prop :=
  ∃ t : List Char, w.toList = '"' :: (t ++ ['"']) ∧ QuotedText t

instance (w : String) : Decidable (PlainWord w) :=
  @instDecidableAnd _ _ _ (@instDecidableAnd _ _ (List.decidableBAll _ _) _)

theorem PlainWord.isField {w : String} (h : PlainWord w) : Text.IsField w.toList :=
  ⟨by simpa using h.1, fun c hc => (h.2.1 c hc).1⟩

theorem PlainWord.closed {w : String} (h : PlainWord w) : ClosedWord w :=
  closedWord_of_plain h.isField fun hq => (h.2.1 _ hq).2.1 rfl

theorem endsWithQuote_of_not_mem {f : List Char} (h : '"' ∉ f) : endsWithQuote f = false := by
  simp only [endsWithQuote, beq_eq_false_iff_ne]
  exact fun hl => h (List.mem_of_getLast? hl)

namespace QuotedText

variable {c : Char} {t : List Char}

theorem tail (h : QuotedText (c :: t)) : QuotedText t where
  noQuote hq := h.noQuote (by simp [hq])
  spaces x hx := h.spaces x (by simp [hx])
  single hs := h.single (List.infix_cons hs)

theorem head_ne_space (h : QuotedText (' ' :: t)) : t.head? ≠ some ' ' := by
  intro hh
  obtain ⟨t', rfl⟩ := List.head?_eq_some_iff.1 hh
  exact h.single ⟨[], t', rfl⟩

theorem head_of_ne_space (h : QuotedText (c :: t)) (hc : c ≠ ' ') :
    isBlank c = false ∧ c ≠ '"' := by
  constructor
  · cases hb : isBlank c with
    | false => rfl
    | true => exact absurd (h.spaces c (by simp) hb) hc
  · rintro rfl
    exact h.noQuote (by simp)

/-- The rest of a quoted text: `phrase` is open, `f` is read of the present field, and `t` is left. -/
theorem close_pending (h : QuotedText t) :
    ∀ {phrase f : List Char}, Pending phrase → (∀ c ∈ f, isBlank c = false ∧ c ≠ '"') →
      (f = [] → t.head? ≠ some ' ') →
      ClosedWord (String.ofList (phrase ++ ' ' :: (f ++ (t ++ ['"'])))) := by
  induction t with
  | nil =>
    intro phrase f hp hf _
    have hfield : Text.IsField (f ++ ['"']) := by
      refine ⟨by simp, fun c hc => ?_⟩
      rcases List.mem_append.1 hc with hc | hc
      · exact (hf c hc).1
      · rw [List.mem_singleton.1 hc]; rfl
    exact hp.close hfield (by simp [endsWithQuote])
  | cons c t ih =>
    intro phrase f hp hf hne
    by_cases hc : c = ' '
    · subst hc
      have hq : endsWithQuote f = false := endsWithQuote_of_not_mem fun hm => (hf _ hm).2 rfl
      have hp' := hp.extend ⟨fun hn => hne hn rfl, fun c hc => (hf c hc).1⟩ hq
      have := @ih h.tail _ [] hp' (by simp) fun _ => h.head_ne_space
      simpa using this
    · have := @ih h.tail phrase (f ++ [c]) hp ?_ (by simp)
      · simpa using this
      · intro x hx
        rcases List.mem_append.1 hx with hx | hx
        · exact hf x hx
        · rw [List.mem_singleton.1 hx]; exact h.head_of_ne_space hc

/-- A quoted text of which `u` is read, all in one field, and `t` is left. -/
theorem close_quote (h : QuotedText t) :
    ∀ {u : List Char}, (∀ c ∈ u, isBlank c = false ∧ c ≠ '"') →
      ClosedWord (String.ofList ('"' :: u ++ (t ++ ['"']))) := by
  induction t with
  | nil =>
    intro u hu
    have hfield : Text.IsField ('"' :: u ++ ['"']) := by
      refine ⟨by simp, fun c hc => ?_⟩
      simp only [List.mem_append, List.mem_cons, List.not_mem_nil, or_false] at hc
      rcases hc with (rfl | hc) | rfl
      · rfl
      · exact (hu c hc).1
      · rfl
    refine closedWord_of_field hfield ?_
    simp [opensQuote, endsWithQuote, List.getLast?_cons]
  | cons c t ih =>
    intro u hu
    by_cases hc : c = ' '
    · subst hc
      have hfield : Text.IsField ('"' :: u) := by
        refine ⟨by simp, fun c hc => ?_⟩
        rcases List.mem_cons.1 hc with rfl | hc
        · rfl
        · exact (hu c hc).1
      have hopen : opensQuote ('"' :: u) = true := by
        cases hl : u.getLast? with
        | none => simp_all [opensQuote, startsWithQuote]
        | some x =>
          have hx := (hu x (List.mem_of_getLast? hl)).2
          simp [opensQuote, startsWithQuote, endsWithQuote, List.getLast?_cons, hl, hx]
      have := @close_pending t h.tail _ [] (pending_of_field hfield hopen) (by simp)
        fun _ => h.head_ne_space
      simpa using this
    · have := @ih h.tail (u ++ [c]) ?_
      · simpa using this
      · intro x hx
        rcases List.mem_append.1 hx with hx | hx
        · exact hu x hx
        · rw [List.mem_singleton.1 hx]; exact h.head_of_ne_space hc

end QuotedText

theorem QuotedWord.closed {w : String} (h : QuotedWord w) : ClosedWord w := by
  obtain ⟨t, hw, ht⟩ := h
  have := @QuotedText.close_quote t ht [] (by simp)
  rwa [List.cons_append, List.nil_append, ← hw, String.ofList_toList] at this

theorem QuotedWord.starts {w : String} (h : QuotedWord w) :
    startsWithQuote w.toList = true := by
  obtain ⟨t, hw, -⟩ := h
  rw [hw]
  rfl

theorem PlainWord.neutral {w : String} (h : PlainWord w) : Neutral w.toList :=
  cutComment_of_plain (fun hm => (h.2.1 _ hm).2.1 rfl) fun _ hm => (h.2.1 _ hm).2.2 rfl

theorem QuotedWord.neutral {w : String} (h : QuotedWord w) : Neutral w.toList := by
  obtain ⟨t, hw, ht⟩ := h
  obtain ⟨hcut, hquoted⟩ := @cutComment_of_plain true t ht.noQuote (by simp)
  have hrest := cutComment_append hcut ['"']
  rw [hquoted] at hrest
  rw [hw]
  constructor
  · change (cutComment true (t ++ ['"'])).2 = none
    rw [hrest]
    rfl
  · change quotedAfter true (t ++ ['"']) = false
    rw [quotedAfter_append, hquoted]
    rfl

theorem QuotedWord.ne_of_plain {w v : String} (h : QuotedWord w)
    (hv : startsWithQuote v.toList = false) : w ≠ v := by
  rintro rfl
  rw [h.starts] at hv
  cases hv

/-! ## Well-formed trees -/

/-- A word of a count or a guard. -/
def SafeWord (w : String) : Prop :=
  PlainWord w ∨ QuotedWord w

theorem SafeWord.closed {w : String} (h : SafeWord w) : ClosedWord w :=
  h.elim PlainWord.closed QuotedWord.closed

theorem SafeWord.neutral {w : String} (h : SafeWord w) : Neutral w.toList :=
  h.elim PlainWord.neutral QuotedWord.neutral

theorem SafeWord.ne_do_end {w : String} (h : SafeWord w) : w ≠ "do" ∧ w ≠ "end" := by
  rcases h with h | h
  · exact h.2.2
  · exact ⟨h.ne_of_plain rfl, h.ne_of_plain rfl⟩

/-- One or more words joined by single spaces. -/
def IsPhrase (text : String) : Prop :=
  ∃ ws, ws ≠ [] ∧ (∀ w ∈ ws, SafeWord w) ∧ text = joinWords ws

/-- What the heading of a statement has to be for the statement to be read back. -/
def Statement.WellHeaded : Statement → Prop
  | .empty mark => mark.comment.isSome
  | .call _ name args =>
    PlainWord name ∧ name ∉ ["for", "loop", "when", "draw", "def"] ∧
      ∀ a ∈ args, QuotedWord a ∨ PlainWord a ∧ a.toList.getLast? ≠ some ','
  | .loop _ count _ => IsPhrase count
  | .when _ guard _ => IsPhrase guard
  | .define _ name params _ =>
    ∀ w ∈ name :: params, PlainWord w ∧ ∀ c ∈ w.toList, c ≠ '(' ∧ c ≠ ')' ∧ c ≠ ','

/-- A heading of plain and quoted words, and a comment on one line without blanks at its ends. -/
structure Statement.WellFormed (s : Statement) : Prop where
  headed : s.WellHeaded
  tidy : ∀ text, s.comment = some text → Tidy text

theorem neutral_keyword {w : String} (h : w ∈ ["for", "loop", "when", "draw", "def", "do"]) :
    Neutral w.toList :=
  cutComment_of_plain (plain_keyword h).2.1 fun _ => (plain_keyword h).2.2

theorem ClosedWord.spaced {w : String} (h : ClosedWord w) :
    ∀ c ∈ w.toList, c = ' ' ∨ isBlank c = false :=
  fun _ hc => h.lastWord.blank_eq_space hc

/-- A block whose header is closed words that hide no comment is readable. -/
theorem readable_of_header {s : Statement} {keyword : String} {kind : BlockKind}
    {inner : List String} {body : List Statement}
    (htidy : ∀ text, s.comment = some text → Tidy text)
    (hhead : s.heading = joinWords (keyword :: (inner ++ ["do"])))
    (hkey : BlockKind.ofKeyword? keyword = some kind) (hne : inner ≠ [])
    (hinner : ∀ w ∈ inner, SafeWord w) (hs : kind.statement s.mark inner body = s) :
    s.Readable := by
  have hwords : ∀ w ∈ keyword :: (inner ++ ["do"]), Neutral w.toList ∧ ClosedWord w := by
    intro w hw
    simp only [List.mem_cons, List.mem_append, List.not_mem_nil, or_false] at hw
    rcases hw with rfl | hw | rfl
    · exact ⟨neutral_keyword (mem_of_ofKeyword hkey), closedWord_keyword (mem_of_ofKeyword hkey)⟩
    · exact ⟨(hinner w hw).neutral, (hinner w hw).closed⟩
    · exact ⟨neutral_keyword (by simp), closedWord_keyword (by simp)⟩
  have hneutral : Neutral s.heading.toList := by
    rw [hhead]
    exact neutral_joinWords fun w hw => (hwords w hw).1
  have hspaced : ∀ c ∈ s.heading.toList, c = ' ' ∨ isBlank c = false := by
    rw [hhead]
    exact blank_eq_space_joinWords fun w hw => (hwords w hw).2.spaced
  refine readable_block ⟨hspaced, htidy⟩ hneutral.1 (fun _ => hneutral.2) ?_ hkey hne ?_ hs
  · rw [hhead]
    exact words_joinWords (.of_closed fun w hw => (hwords w hw).2)
  · exact ⟨fun h => (hinner _ h).ne_do_end.1 rfl, fun h => (hinner _ h).ne_do_end.2 rfl⟩

theorem readable_of_wellFormed {s : Statement} (h : s.WellFormed) : s.Readable := by
  obtain ⟨hh, htidy⟩ := h
  cases s with
  | empty mark =>
    refine ⟨⟨by simp [Statement.heading], htidy⟩, rfl, fun _ => rfl, .empty mark, ?_, fun _ => hh⟩
    intro hw
    exact absurd rfl hw
  | call mark name args =>
    obtain ⟨hname, hkey, hargs⟩ := hh
    have hsafe : ∀ w ∈ name :: args, SafeWord w := by
      intro w hw
      rcases List.mem_cons.1 hw with rfl | hw
      · exact .inl hname
      · exact (hargs w hw).elim .inr fun hp => .inl hp.1
    have hneutral : Neutral (Statement.call mark name args).heading.toList :=
      neutral_joinWords fun w hw => (hsafe w hw).neutral
    have hspaced := blank_eq_space_joinWords fun w hw => (hsafe w hw).closed.spaced
    refine readable_call ⟨hspaced, htidy⟩ hneutral.1 (fun _ => hneutral.2)
      (.of_closed fun w hw => (hsafe w hw).closed) hname.2.2.2 (ofKeyword_eq_none_iff.2 hkey)
      (fun hdo => absurd hdo hname.2.2.1) fun a ha => ?_
    have hne := (hsafe a (by simp [ha])).ne_do_end
    refine ⟨hne.1, hne.2, ?_⟩
    rcases hargs a ha with hq | ⟨-, hcomma⟩
    · exact withoutComma_of_quote hq.starts
    · simp [withoutComma, hcomma]
  | loop mark count body =>
    obtain ⟨ws, hne, hws, rfl⟩ := hh
    exact readable_of_header htidy (heading_loop mark hne body) rfl hne hws rfl
  | when mark guard body =>
    obtain ⟨ws, hne, hws, rfl⟩ := hh
    exact readable_of_header htidy (heading_when mark hne body) rfl hne hws rfl
  | define mark name params body =>
    have hnames : headerNames (name :: params) = name :: params :=
      headerNames_of_joinWords rfl fun w hw => ⟨(hh w hw).1.isField, (hh w hw).2⟩
    have hs : BlockKind.define.statement mark (name :: params) body =
        .define mark name params body := by
      simp only [BlockKind.statement, hnames]
    exact readable_of_header htidy (heading_define mark name params body) rfl (by simp)
      (fun w hw => .inl (hh w hw).1) hs

/-- **Printing loses nothing.** The text of a well-formed tree is read as that tree, comments included,
up to line numbers, and printing what was read gives the same text. -/
theorem parse_render_of_wellFormed (program : List Statement)
    (hwf : ∀ s ∈ Statement.preorderAll program, s.WellFormed)
    (hn : Statement.nestingAll program ≤ 127) :
    ∃ again, parse (render program) = .ok again ∧
      Statement.unnumberedAll again = Statement.unnumberedAll program ∧
      render again = render program := by
  have hr : ∀ s ∈ Statement.preorderAll program, s.Readable :=
    fun s hs => readable_of_wellFormed (hwf s hs)
  obtain ⟨again, hp, heq⟩ := parse_render_of_readable hr (by rw [maxBlockDepth]; omega)
  exact ⟨again, hp, heq, render_eq_of_unnumberedAll heq⟩

/-- A definition with a loop, a guard, a quoted text with a `#` in it, and comments. -/
def labelledSquare : List Statement :=
  [.empty ⟨3, some "a square"⟩,
    .define ⟨8, none⟩ "square" ["side"]
      [.loop ⟨8, some "\" twice"⟩ "2 * 2" [.call ⟨9, none⟩ "fw" ["side"]],
        .when ⟨5, some ""⟩ "side > 1" [.call ⟨5, some "do"⟩ "label" ["\" side # 1\"", "14"]]]]

theorem wellFormed_labelledSquare : ∀ s ∈ Statement.preorderAll labelledSquare, s.WellFormed := by
  have hquoted : QuotedWord "\" side # 1\"" :=
    ⟨" side # 1".toList, by decide +kernel, by decide +kernel,
      Text.forall_mem_of_all (by decide +kernel), by decide +kernel⟩
  have hcount : IsPhrase "2 * 2" := by
    refine ⟨["2", "*", "2"], by simp, fun w hw => .inl ?_, by decide +kernel⟩
    revert w
    decide +kernel
  have hguard : IsPhrase "side > 1" := by
    refine ⟨["side", ">", "1"], by simp, fun w hw => .inl ?_, by decide +kernel⟩
    revert w
    decide +kernel
  have hcomment : ∀ comment ∈ ["a square", "\" twice", "", "do"], Tidy comment := by
    unfold Tidy
    decide +kernel
  have hlabel : ∀ a ∈ ["\" side # 1\"", "14"],
      QuotedWord a ∨ PlainWord a ∧ a.toList.getLast? ≠ some ',' := by
    intro a ha
    simp only [List.mem_cons, List.not_mem_nil, or_false] at ha
    rcases ha with rfl | rfl
    · exact .inl hquoted
    · exact .inr (by decide +kernel)
  have hfw : ∀ a ∈ ["side"], QuotedWord a ∨ PlainWord a ∧ a.toList.getLast? ≠ some ',' :=
    fun a ha => .inr (by revert a; decide +kernel)
  have hnames : ∀ w ∈ ["square", "side"],
      PlainWord w ∧ ∀ c ∈ w.toList, c ≠ '(' ∧ c ≠ ')' ∧ c ≠ ',' := by
    intro w hw
    refine ⟨by revert w; decide +kernel, Text.forall_mem_of_all ?_⟩
    revert w
    decide +kernel
  intro s hs
  simp only [labelledSquare, Statement.preorderAll, Statement.preorder, List.cons_append,
    List.nil_append, List.append_nil, List.mem_cons, List.not_mem_nil, or_false] at hs
  rcases hs with rfl | rfl | rfl | rfl | rfl | rfl
  · exact ⟨rfl, fun t ht => hcomment t (by cases ht; simp)⟩
  · exact ⟨hnames, fun t ht => by cases ht⟩
  · exact ⟨hcount, fun t ht => hcomment t (by cases ht; simp)⟩
  · exact ⟨⟨by decide +kernel, by decide +kernel, hfw⟩, fun t ht => by cases ht⟩
  · exact ⟨hguard, fun t ht => hcomment t (by cases ht; simp)⟩
  · exact ⟨⟨by decide +kernel, by decide +kernel, hlabel⟩, fun t ht => hcomment t (by cases ht; simp)⟩

theorem parse_render_labelledSquare :
    (∀ s ∈ Statement.preorderAll labelledSquare, s.WellFormed) ∧
    Statement.nestingAll labelledSquare = 2 ∧
    ∃ again, parse (render labelledSquare) = .ok again ∧
      Statement.unnumberedAll again = Statement.unnumberedAll labelledSquare ∧
      render again = render labelledSquare :=
  ⟨wellFormed_labelledSquare, rfl,
    parse_render_of_wellFormed labelledSquare wellFormed_labelledSquare (by decide)⟩

end Program
end TurtleGraphics
