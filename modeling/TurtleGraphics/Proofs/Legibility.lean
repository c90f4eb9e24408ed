import TurtleGraphics.Proofs.Headings

/-!
# TurtleGraphics.Proofs.Legibility

Which statements survive being printed, among those that were read. What is read can be printed in a
way that is read differently: an argument keeps all commas at its end but one, a name can be `do` once
its brackets are gone, and a quote can pair with another one on its source line that is printed on
another line. `Statement.Legible` says what must not happen on the line of a statement, and
`readable_of_legible` that it is then read back.
-/

namespace TurtleGraphics
namespace Program

open Text (fields isBlank joinWords)
open Statement (preorderAll layoutAll unnumberedAll nestingAll sameShape sameShapes)

/-! ## Legible statements -/

/-- An argument that is read as it is printed. -/
def LegibleArgument (a : String) : Prop :=
  a ≠ "" ∧ a ≠ "do" ∧ a ≠ "end" ∧ withoutComma a = a

/-- The words of a line that opens a block: `do` is the last of them, and nothing in front of it ends
the line. -/
def OpensBlock (ws : List String) : Prop :=
  ws.getLast? = some "do" ∧ "do" ∉ ws.dropLast ∧ "end" ∉ ws

/-- The arguments of a call, or the names of a definition, are read as they are printed. -/
def Statement.LegibleWords : Statement → Prop
  | .empty _ => True
  | .call _ _ args => ∀ a ∈ args, LegibleArgument a
  | .loop _ _ _ => True
  | .when _ _ _ => True
  | .define mark name params body =>
    name ≠ "" ∧ OpensBlock (words (Statement.define mark name params body).heading.toList)

/-- The first line of a statement, once printed, does not mislead its reader: its heading has no `#`
outside quotes, leaves no quote open if a comment follows, and has legible words. -/
def Statement.Legible (s : Statement) : Prop :=
  (cutComment false s.heading.toList).2 = none ∧
    (s.comment.isSome → quotedAfter false s.heading.toList = false) ∧ s.LegibleWords

instance (a : String) : Decidable (LegibleArgument a) :=
  inferInstanceAs (Decidable (_ ∧ _))

instance (ws : List String) : Decidable (OpensBlock ws) :=
  inferInstanceAs (Decidable (_ ∧ _))

instance (s : Statement) : Decidable s.LegibleWords :=
  match s with
  | .empty _ => inferInstanceAs (Decidable True)
  | .call _ _ args => inferInstanceAs (Decidable (∀ a ∈ args, LegibleArgument a))
  | .loop _ _ _ => inferInstanceAs (Decidable True)
  | .when _ _ _ => inferInstanceAs (Decidable True)
  | .define _ _ _ _ => inferInstanceAs (Decidable (_ ∧ _))

instance (s : Statement) : Decidable s.Legible :=
  inferInstanceAs (Decidable (_ ∧ _))

/-! ## Statements that were read -/

/-- A count or guard as it was read. -/
def ReadPhrase (text : String) : Prop :=
  ∃ inner, inner ≠ [] ∧ (∀ w ∈ inner, ClosedWord w) ∧ "do" ∉ inner ∧ "end" ∉ inner ∧
    text = joinWords inner

/-- What is known of the heading of a statement that was read from a source line. -/
def Statement.ReadHeading : Statement → Prop
  | .empty mark => mark.comment.isSome
  | .call _ name args =>
    ∃ ws, args = ws.map withoutComma ∧ Wording (name :: ws) ∧ name ≠ "end" ∧
      BlockKind.ofKeyword? name = none ∧ (name = "do" → ws = [])
  | .loop _ count _ => ReadPhrase count
  | .when _ guard _ => ReadPhrase guard
  | .define _ name params _ => name = "" ∧ params = [] ∨ ∀ w ∈ name :: params, IsName w

/-- What is known of a statement that was read. -/
structure Statement.Accepted (s : Statement) : Prop where
  heading : s.ReadHeading
  tidy : ∀ text, s.comment = some text → Tidy text

theorem readPhrase_of_line {keyword : String} {inner : List String}
    (hw : Wording (keyword :: (inner ++ ["do"]))) (hr : IsRun (keyword :: (inner ++ ["do"])))
    (hne : inner ≠ []) : ReadPhrase (joinWords inner) := by
  rcases hr with hr | ⟨-, he, hd⟩
  · simp at hr
  · rw [List.dropLast_cons_of_ne_nil (by simp), List.dropLast_concat] at hd
    refine ⟨inner, hne, Wording.closed_left hw.tail (by simp), fun h => hd (by simp [h]),
      fun h => he (by simp [h]), rfl⟩

theorem accepted_of_heads {l : Line} {s : Statement} (hl : l.Formed) (hh : Heads l.words s)
    (hm : s.mark = l.mark) : s.Accepted := by
  have htidy : ∀ text, s.comment = some text → Tidy text := by
    intro text ht
    rw [Statement.comment, hm] at ht
    exact hl.tidy text ht
  obtain ⟨hw, hr, hc, -⟩ := hl
  refine ⟨?_, htidy⟩
  generalize l.words = ws at hh hw hr hc
  cases hh with
  | empty mark =>
    cases hm
    exact hc rfl
  | @call mark name args hend hkey hdo =>
    refine ⟨args, rfl, hw, hend, hkey, fun hn => ?_⟩
    rcases hr (by simp) with h | ⟨-, -, hd⟩
    · exact absurd (List.cons.inj h).1 hend
    · cases args with
      | nil => rfl
      | cons a args =>
        rw [List.dropLast_cons_of_ne_nil (by simp)] at hd
        exact absurd (by simp [hn]) hd
  | @block mark keyword kind inner body hkey hne =>
    have hphrase := readPhrase_of_line hw (hr (by simp)) hne
    cases kind with
    | loop => exact hphrase
    | when => exact hphrase
    | define =>
      have hnames : ∀ w ∈ headerNames inner, IsName w := fun w h => isName_of_mem_headerNames h
      simp only [BlockKind.statement]
      split
      · exact .inl ⟨rfl, rfl⟩
      · rename_i name params heq
        exact .inr (heq ▸ hnames)

theorem Spells.heads {ls : List Line} {program : List Statement} (h : Spells ls program) :
    ∀ s ∈ preorderAll program, ∃ l ∈ ls, Heads l.words s ∧ s.mark = l.mark := by
  induction h with
  | nil => intro s hs; cases hs
  | @leaf l ls s rest hh hm hb _ ih =>
    intro x hx
    rw [preorderAll, Statement.preorder_of_leaf hb] at hx
    rcases List.mem_cons.1 hx with rfl | hx
    · exact ⟨l, by simp, hh, hm⟩
    · obtain ⟨l', hl', hx⟩ := ih x hx
      exact ⟨l', by simp [hl'], hx⟩
  | @block l close inside ls s body rest hh hm hb _ _ _ ihb ihr =>
    intro x hx
    rw [preorderAll, Statement.preorder_of_block hb, List.cons_append] at hx
    rcases List.mem_cons.1 hx with rfl | hx
    · exact ⟨l, by simp, hh, hm⟩
    · rcases List.mem_append.1 hx with hx | hx
      · obtain ⟨l', hl', hx⟩ := ihb x hx
        exact ⟨l', by simp [hl'], hx⟩
      · obtain ⟨l', hl', hx⟩ := ihr x hx
        exact ⟨l', by simp [hl'], hx⟩

theorem accepted_of_parse {source : String} {program : List Statement}
    (h : parse source = .ok program) : ∀ s ∈ preorderAll program, s.Accepted := by
  intro s hs
  obtain ⟨l, hl, hh, hm⟩ := (spells_of_parse h).heads s hs
  exact accepted_of_heads (formed_of_mem_lines hl) hh hm

theorem ReadPhrase.closed {text : String} (h : ReadPhrase text) {keyword : String}
    (hk : keyword ∈ ["for", "loop", "when", "draw", "def", "do"]) :
    ∃ inner, inner ≠ [] ∧ text = joinWords inner ∧ "do" ∉ inner ∧ "end" ∉ inner ∧
      ∀ w ∈ keyword :: (inner ++ ["do"]), ClosedWord w := by
  obtain ⟨inner, hne, hclosed, hd, he, rfl⟩ := h
  refine ⟨inner, hne, rfl, hd, he, fun w hw => ?_⟩
  simp only [List.mem_cons, List.mem_append, List.not_mem_nil, or_false] at hw
  rcases hw with rfl | hw | rfl
  · exact closedWord_keyword hk
  · exact hclosed w hw
  · exact closedWord_keyword (by simp)

theorem spaced_of_closed {ws : List String} (h : ∀ w ∈ ws, ClosedWord w) :
    ∀ c ∈ (joinWords ws).toList, c = ' ' ∨ isBlank c = false :=
  blank_eq_space_joinWords fun w hw _ hc => (h w hw).lastWord.blank_eq_space hc

theorem Statement.Accepted.printable {s : Statement} (h : s.Accepted) : s.Printable := by
  refine ⟨?_, h.tidy⟩
  have hh := h.heading
  cases s with
  | empty mark => simp [Statement.heading]
  | call mark name args =>
    obtain ⟨ws, rfl, hw, -⟩ := hh
    refine blank_eq_space_joinWords fun w hm c hc => ?_
    rcases List.mem_cons.1 hm with rfl | hm
    · exact (hw.lastWord w (by simp)).blank_eq_space hc
    · obtain ⟨v, hv, rfl⟩ := List.mem_map.1 hm
      exact (hw.lastWord v (by simp [hv])).blank_eq_space ((withoutComma_isPrefix v).subset hc)
  | loop mark count body =>
    obtain ⟨inner, hne, rfl, -, -, hclosed⟩ := hh.closed (show "for" ∈ _ by simp)
    rw [heading_loop mark hne body]
    exact spaced_of_closed hclosed
  | when mark guard body =>
    obtain ⟨inner, hne, rfl, -, -, hclosed⟩ := hh.closed (show "when" ∈ _ by simp)
    rw [heading_when mark hne body]
    exact spaced_of_closed hclosed
  | define mark name params body =>
    refine blank_eq_space_joinWords fun w hm c hc => ?_
    simp only [List.mem_cons, List.mem_append, List.not_mem_nil, or_false] at hm
    have hnames : ∀ w ∈ name :: params, c ∈ w.toList → isBlank c = false := by
      intro w hw hc
      rcases hh with ⟨rfl, rfl⟩ | hh
      · rw [List.mem_singleton.1 hw] at hc
        simp at hc
      · exact (hh w hw).1.2 c hc
    rcases hm with rfl | rfl | hm | rfl
    · exact .inr ((plain_keyword (by simp)).1.2 c hc)
    · exact .inr (hnames w (by simp) hc)
    · exact .inr (hnames w (by simp [hm]) hc)
    · exact .inr ((plain_keyword (by simp)).1.2 c hc)

/-! ## Legible statements are read back -/

theorem wording_call {name : String} {ws : List String} (h : Wording (name :: ws)) :
    Wording ((name :: ws.map withoutComma).filter (· ≠ "")) := by
  have hname : name ≠ "" := (h.lastWord name (by simp)).ne_empty
  rw [List.filter_cons_of_pos (by simpa using hname)]
  cases ws with
  | nil => exact h
  | cons w ws => exact .cons (h.closed_head (by simp)) h.tail.strip

theorem words_draw (names : List String) :
    words (joinWords ("draw" :: (names ++ ["do"]))).toList =
      "draw" :: words (joinWords (names ++ ["do"])).toList := by
  have hopen : opensQuote "draw".toList = false := rfl
  have hdraw : Text.IsField "draw".toList := (plain_keyword (by simp)).1
  rw [words, fields_joinWords, List.flatMap_cons, Text.fields_of_isField hdraw,
    List.singleton_append, joinQuoted, if_neg (by rw [hopen]; decide), ← fields_joinWords, List.map_cons,
    String.ofList_toList]
  rfl

/-- The header of a definition, cut into words, has the names it was printed from. -/
theorem joinWords_header {names inner : List String} (hnames : ∀ w ∈ names, IsName w)
    (hw : words (joinWords (names ++ ["do"])).toList = inner ++ ["do"]) :
    joinWords inner = joinWords names := by
  have hfield : ∀ w : String, IsName w → fields w.toList = [w.toList] :=
    fun w h => Text.fields_of_isField h.1
  have hdo : fields "do".toList = ["do".toList] := 
    Text.fields_of_isField (plain_keyword (by simp)).1
  have hflat : names.flatMap (fun w => fields w.toList) = names.map String.toList := by
    clear hw
    induction names with
    | nil => rfl
    | cons w names ih =>
      rw [List.flatMap_cons, hfield w (hnames w (by simp)), ih fun x hx => hnames x (by simp [hx])]
      rfl
  have hwording : Wording (inner ++ ["do"]) := hw ▸ wording_words _
  -- both sides have the fields of the text, the last of which is `do`
  have hall : inner.flatMap (fun w => fields w.toList) ++ ["do".toList] =
      names.map String.toList ++ ["do".toList] := by
    have hsame := congrArg (fun ws => fields (joinWords ws).toList) hw
    simp only [joinWords_words, Text.fields_intercalate] at hsame
    rw [Text.flatMap_fields fun f hf => Text.isField_of_mem_fields hf, fields_joinWords,
      fields_joinWords, List.flatMap_append, List.flatMap_append, List.flatMap_singleton, hdo,
      hflat] at hsame
    exact hsame.symm
  have hinner : inner.flatMap (fun w => fields w.toList) = names.map String.toList :=
    List.append_cancel_right hall
  have := joinWords_words (joinWords inner).toList
  rw [words_joinWords hwording.left, fields_joinWords, hinner, ← Text.toList_joinWords] at this
  exact String.toList_inj.1 this

theorem readable_of_legible {s : Statement} (h : s.Accepted) (hl : s.Legible) : s.Readable := by
  have hp := h.printable
  have hh := h.heading
  obtain ⟨hbare, hout, hlegible⟩ := hl
  cases s with
  | empty mark =>
    exact ⟨hp, hbare, hout, .empty mark, fun hw => absurd rfl hw, fun _ => hh⟩
  | call mark name args =>
    obtain ⟨ws, rfl, hw, hend, hkey, hdo⟩ := hh
    have hfilter := wording_call hw
    rw [List.filter_eq_self.2 ?_] at hfilter
    · refine readable_call hp hbare hout hfilter hend hkey (fun hn => by simp [hdo hn]) ?_
      intro a ha
      exact ⟨(hlegible a ha).2.1, (hlegible a ha).2.2⟩
    · intro a ha
      rcases List.mem_cons.1 ha with rfl | ha
      · simpa using (hw.lastWord a (by simp)).ne_empty
      · simpa using (hlegible a ha).1
  | loop mark count body =>
    obtain ⟨inner, hne, rfl, hd, he, hclosed⟩ := hh.closed (show "for" ∈ _ by simp)
    refine @readable_block _ "for" .loop inner body hp hbare hout ?_ rfl hne ⟨hd, he⟩ rfl
    rw [heading_loop mark hne body]
    exact words_joinWords (.of_closed hclosed)
  | when mark guard body =>
    obtain ⟨inner, hne, rfl, hd, he, hclosed⟩ := hh.closed (show "when" ∈ _ by simp)
    refine @readable_block _ "when" .when inner body hp hbare hout ?_ rfl hne ⟨hd, he⟩ rfl
    rw [heading_when mark hne body]
    exact words_joinWords (.of_closed hclosed)
  | define mark name params body =>
    obtain ⟨hname, hlast, hd, he⟩ := hlegible
    rw [heading_define, words_draw] at hlast hd he
    have hnames : ∀ w ∈ name :: params, IsName w := hh.resolve_left fun hn => hname hn.1
    -- the last word is `do`, so the words in front of it are a header with the same names
    obtain ⟨ws, hws⟩ := List.getLast?_eq_some_iff.1 hlast
    cases ws with
    | nil =>
      exact absurd (List.cons.inj hws).1 (by decide)
    | cons draw inner =>
      obtain ⟨rfl, (hinner : _ = inner ++ ["do"])⟩ := List.cons.inj hws
      have hjoin := joinWords_header hnames hinner
      have hnil : inner ≠ [] := by
        rintro rfl
        have := congrArg (fun t => fields t.toList) hjoin
        rw [fields_joinWords, fields_joinWords, List.flatMap_cons,
          Text.fields_of_isField (hnames name (by simp)).1] at this
        cases this
      rw [hinner, List.dropLast_cons_of_ne_nil (by simp), List.dropLast_concat] at hd
      rw [hinner] at he
      refine @readable_block _ "draw" .define inner body hp hbare hout ?_ rfl hnil
        ⟨fun hm => hd (by simp [hm]), fun hm => he (by simp [hm])⟩ ?_
      · rw [heading_define, words_draw, hinner]
      · simp only [BlockKind.statement, headerNames_of_joinWords hjoin hnames]
        rfl

end Program
end TurtleGraphics
