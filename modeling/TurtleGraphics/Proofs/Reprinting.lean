import TurtleGraphics.Proofs.Legibility

/-!
# TurtleGraphics.Proofs.Reprinting

A program that was read from a text keeps its shape when it is printed and read again exactly if all
its statements are legible (`parse_render_sameShapes_iff`).

That legible programs keep their shape is `readable_of_legible`. The argument for the converse counts
lines. Every printed line is read as one logical line or more (`linesOf_firstLine_ne_nil`), and programs
of the same shape have the same number of logical lines (`Spells.length_eq`), so a printed line of a
program that keeps its shape is read as exactly one. That line heads the statement it was printed for,
and then the statement is legible (`legible_of_heads`).
-/

namespace TurtleGraphics
namespace Program

open Text (fields isBlank joinWords)
open Statement (preorderAll layoutAll unnumberedAll nestingAll sameShape sameShapes)

/-! ## Shapes -/

namespace Statement

theorem heading_of_sameShape {s s' : Statement} (h : sameShape s s' = true) :
    s'.heading = s.heading := by
  cases s <;> cases s' <;> simp_all [sameShape, heading]

theorem leaf_of_sameShape {s s' : Statement} (h : sameShape s s' = true) (hb : s.body? = none) :
    s'.body? = none := by
  cases s <;> cases s' <;> simp_all [sameShape, body?]

theorem block_of_sameShape {s s' : Statement} (h : sameShape s s' = true) {body : List Statement}
    (hb : s.body? = some body) : ∃ body', s'.body? = some body' ∧ sameShapes body body' = true := by
  cases s <;> cases s' <;> simp_all [sameShape, body?]

theorem sameShape_of_leaf {s s' : Statement} (h : s'.unnumbered = s.unnumbered)
    (hb : s.body? = none) : sameShape s s' = true := by
  cases s <;> cases s' <;> simp_all [sameShape, body?, unnumbered]

theorem sameShape_of_block {s s' : Statement} {body : List Statement}
    (h : s'.unnumbered = s.unnumbered) (hb : s.body? = some body)
    (hs : ∀ body', unnumberedAll body' = unnumberedAll body → sameShapes body body' = true) :
    sameShape s s' = true := by
  cases s <;> cases s' <;> simp_all [sameShape, body?, unnumbered]

theorem sameShapes_of_unnumberedAll (program : List Statement) :
    ∀ again, unnumberedAll again = unnumberedAll program → sameShapes program again = true := by
  induction program using body_induction with
  | nil =>
    intro again h
    cases again with
    | nil => rfl
    | cons s rest => cases h
  | leaf s rest hb ih =>
    intro again h
    cases again with
    | nil => cases h
    | cons s' rest' =>
      obtain ⟨hs, hrest⟩ := List.cons.inj h
      simp [sameShapes, sameShape_of_leaf hs hb, ih rest' hrest]
  | block s body rest hb ihb ih =>
    intro again h
    cases again with
    | nil => cases h
    | cons s' rest' =>
      obtain ⟨hs, hrest⟩ := List.cons.inj h
      simp [sameShapes, sameShape_of_block hs hb ihb, ih rest' hrest]

theorem length_layoutAll_of_sameShapes {program : List Statement} :
    ∀ {again : List Statement}, sameShapes program again = true →
      ∀ depth, (layoutAll depth again).length = (layoutAll depth program).length := by
  induction program using body_induction with
  | nil =>
    intro again h depth
    cases again with
    | nil => rfl
    | cons s rest => simp [sameShapes] at h
  | leaf s rest hb ih =>
    intro again h depth
    obtain ⟨s', rest', rfl, hs, hrest⟩ := sameShapes_cons h
    rw [layoutAll, layoutAll, layout_of_leaf hb, layout_of_leaf (leaf_of_sameShape hs hb)]
    simp [ih hrest depth]
  | block s body rest hb ihb ih =>
    intro again h depth
    obtain ⟨s', rest', rfl, hs, hrest⟩ := sameShapes_cons h
    obtain ⟨body', hb', hbody⟩ := block_of_sameShape hs hb
    rw [layoutAll, layoutAll, layout_of_block hb, layout_of_block hb']
    simp [ih hrest depth, ihb hbody (depth + 1)]

end Statement

/-! ## Printed lines are not lost -/

theorem words_ne_nil {code : List Char} {c : Char} (hc : c ∈ code) (hb : isBlank c = false) :
    words code ≠ [] :=
  fun hw => Text.fields_ne_nil ⟨c, hc, hb⟩ (words_eq_nil_iff.1 hw)

theorem Statement.Accepted.exists_not_isBlank {s : Statement} (h : s.Accepted) :
    s.heading = "" ∧ s.comment.isSome ∨ ∃ c ∈ s.heading.toList, isBlank c = false := by
  have hh := h.heading
  cases s with
  | empty mark => exact .inl ⟨rfl, hh⟩
  | call mark name args =>
    obtain ⟨ws, -, hw, -⟩ := hh
    refine .inr (Classical.byContradiction fun hnone => ?_)
    have hblank : fields (joinWords (name :: args)).toList = [] := by
      refine Text.fields_eq_nil_iff.2 fun c hc => ?_
      exact eq_true_of_ne_false fun hf => hnone ⟨c, hc, hf⟩
    rw [fields_joinWords, List.flatMap_cons, List.append_eq_nil_iff] at hblank
    have hname := hw.lastWord name (by simp)
    rw [LastWord, hblank.1] at hname
    cases hname
  | loop mark count body => exact .inr ⟨'f', by simp [Statement.heading], rfl⟩
  | when mark guard body => exact .inr ⟨'w', by simp [Statement.heading], rfl⟩
  | define mark name params body =>
    exact .inr ⟨'d', by simp [heading_define, Text.toList_joinWords, List.intercalate_cons_cons], rfl⟩

/-- What stands on a printed line, from its heading on. -/
theorem toList_withComment (heading : String) (comment : Option String) :
    ∃ tail, (withComment heading comment).toList = heading.toList ++ tail := by
  cases comment with
  | none => exact ⟨[], by simp [withComment]⟩
  | some text =>
    obtain ⟨gap, rest, hl, -⟩ := toList_withComment_some heading text
    exact ⟨_, hl⟩

/-- The first line of a statement is read as one logical line or more. -/
theorem linesOf_firstLine_ne_nil {s : Statement} (h : s.Accepted) (number depth : Nat) :
    linesOf number (s.firstLine depth).toList ≠ [] := by
  refine linesOf_ne_nil ?_
  rw [Statement.firstLine, words_codeOf_indented, commentOf_indented, commentOf]
  obtain ⟨tail, htail⟩ := toList_withComment s.heading s.comment
  cases hcut : (cutComment false s.heading.toList).2 with
  | some text => exact .inr (by rw [htail, cutComment_append_of_some hcut]; rfl)
  | none =>
    rcases h.exists_not_isBlank with ⟨hempty, hc⟩ | ⟨c, hc, hb⟩
    · obtain ⟨text, ht⟩ := Option.isSome_iff_exists.1 hc
      obtain ⟨-, -, -, hsome, -⟩ := cutComment_printed hcut fun _ => by rw [hempty]; rfl
      obtain ⟨rest, hr, -⟩ := hsome text ht
      exact .inr (by rw [hr]; rfl)
    · refine .inl (words_ne_nil ?_ hb)
      rw [htail, cutComment_append hcut]
      exact List.mem_append_left _ hc

/-! ## Counting number signs

A `#` that moves between code and comment changes how many of them the code has, and reading keeps
their number in the code. -/

theorem count_joinWords {c : Char} (hc : c ≠ ' ') (ws : List String) :
    (joinWords ws).toList.count c = (ws.flatMap String.toList).count c := by
  rw [Text.toList_joinWords, Text.count_intercalate hc, List.flatMap_def]

theorem count_map_withoutComma (ws : List String) :
    ((ws.map withoutComma).flatMap String.toList).count '#' = (ws.flatMap String.toList).count '#' := by
  induction ws with
  | nil => rfl
  | cons w ws ih =>
    rw [List.map_cons, List.flatMap_cons, List.flatMap_cons, List.count_append, List.count_append, ih,
      count_withoutComma (by decide)]

theorem count_headerNames (inner : List String) :
    ((headerNames inner).flatMap String.toList).count '#' = (joinWords inner).toList.count '#' := by
  simp only [headerNames, List.flatMap_def, List.map_map, Function.comp_def, String.toList_ofList,
    List.map_id']
  rw [Text.count_fields rfl]
  induction (joinWords inner).toList with
  | nil => rfl
  | cons c cs ih =>
    rw [List.map_cons, List.count_cons, List.count_cons, ih]
    by_cases hc : (c == '(' || c == ')' || c == ',') = true
    · have : (c == '#') = false := by
        simp only [Bool.or_eq_true, beq_iff_eq] at hc
        rcases hc with (rfl | rfl) | rfl <;> rfl
      rw [if_pos hc, this]
      rfl
    · rw [if_neg hc]

theorem Heads.count_eq {ws : List String} {s : Statement} (h : Heads ws s) :
    (joinWords ws).toList.count '#' = s.heading.toList.count '#' := by
  cases h with
  | empty mark => rfl
  | call mark hend hkey hdo =>
    rw [Statement.heading, count_joinWords (by decide), count_joinWords (by decide), List.flatMap_cons,
      List.flatMap_cons, List.count_append, List.count_append, count_map_withoutComma]
  | @block mark keyword kind inner body hkey hne =>
    -- neither keywords nor `do` have a `#`
    have hframe : ∀ {first : String} (ws : List String), first.toList.count '#' = 0 →
        ((first :: (ws ++ ["do"])).flatMap String.toList).count '#' =
          (ws.flatMap String.toList).count '#' := by
      intro first ws hfirst
      have hdo : ("do".toList ++ []).count '#' = 0 := rfl
      rw [List.flatMap_cons, List.flatMap_append, List.count_append, List.count_append, hfirst,
        List.flatMap_cons, List.flatMap_nil, hdo, Nat.zero_add, Nat.add_zero]
    have hkeyword := List.count_eq_zero.2 (plain_keyword (mem_of_ofKeyword hkey)).2.2
    rw [count_joinWords (by decide), hframe inner hkeyword, ← count_joinWords (by decide)]
    cases kind with
    | loop => simp [BlockKind.statement, Statement.heading]
    | when => simp [BlockKind.statement, Statement.heading]
    | define =>
      rw [← count_headerNames]
      simp only [BlockKind.statement]
      split
      · rename_i hnil
        rw [hnil, heading_define]
        decide
      · rename_i name params hcons
        rw [heading_define, count_joinWords (by decide), hframe (name :: params) rfl, hcons]

/-- A printed line whose code has as many number signs as its heading has its comment where it was
printed. -/
theorem bare_of_count {heading : String} {comment : Option String}
    (h : (cutComment false (withComment heading comment).toList).1.count '#' = heading.toList.count '#') :
    (cutComment false heading.toList).2 = none ∧
      (comment.isSome → quotedAfter false heading.toList = false) := by
  obtain ⟨tail, htail⟩ := toList_withComment heading comment
  have hbare : (cutComment false heading.toList).2 = none := by
    cases hcut : (cutComment false heading.toList).2 with
    | none => rfl
    | some text =>
      -- the heading was cut short of its own `#`
      have hsplit := congrArg (List.count '#') (eq_of_cutComment_some hcut)
      rw [htail, cutComment_append_of_some hcut, hsplit, List.count_append, List.count_cons_self] at h
      dsimp only at h
      omega
  refine ⟨hbare, fun hc => ?_⟩
  obtain ⟨text, rfl⟩ := Option.isSome_iff_exists.1 hc
  cases hq : quotedAfter false heading.toList with
  | false => rfl
  | true =>
    -- the `#` of the comment stands in the quotes that the heading leaves open
    obtain ⟨gap, rest, hl, hgap, -⟩ := toList_withComment_some heading text
    rw [hl, cutComment_append hbare, hq, List.count_append] at h
    have hpos : 0 < (cutComment true (gap ++ '#' :: rest)).1.count '#' := by
      rcases hgap with rfl | ⟨rfl, -⟩ <;> simp [cutComment]
    omega

/-! ## Lines read back head legible statements -/

theorem Heads.words_of_block {ws : List String} {s : Statement} (h : Heads ws s)
    {body : List Statement} (hb : s.body? = some body) :
    ∃ keyword inner, inner ≠ [] ∧ ws = keyword :: (inner ++ ["do"]) := by
  cases h with
  | empty mark => cases hb
  | call mark hend hkey hdo => cases hb
  | block mark body hkey hne => exact ⟨_, _, hne, rfl⟩

theorem Heads.words_of_call {ws : List String} {mark : Mark} {name : String} {args : List String}
    (h : Heads ws (.call mark name args)) :
    ∃ args', ws = name :: args' ∧ args = args'.map withoutComma ∧ args'.getLast? ≠ some "do" := by
  generalize hs : Statement.call mark name args = s at h
  cases h with
  | empty mark => cases hs
  | call mark hend hkey hdo =>
    cases hs
    exact ⟨_, rfl, rfl, hdo⟩
  | block mark body hkey hne =>
    have hbody := congrArg Statement.body? hs
    rw [BlockKind.body?_statement] at hbody
    cases hbody

theorem legibleArgument_of_heads {mark : Mark} {name : String} {args : List String}
    (hw : Wording ((name :: args).filter (· ≠ "")))
    (hr : IsRun (words (Statement.call mark name args).heading.toList))
    (hh : Heads (words (Statement.call mark name args).heading.toList) (.call mark name args)) :
    ∀ a ∈ args, LegibleArgument a := by
  rw [Statement.heading, words_joinWords_filter hw] at hr hh
  obtain ⟨args', hws, hargs, hdo⟩ := hh.words_of_call
  -- as many words are read as were printed, so none of them was empty
  have hlen : ((name :: args).filter (· ≠ "")).length = (name :: args).length := by
    rw [hws, hargs]
    simp
  have hne := List.length_filter_eq_length_iff.1 hlen
  rw [List.filter_eq_self.2 hne] at hws hr
  obtain ⟨-, rfl⟩ := List.cons.inj hws
  intro a ha
  have hstrip : withoutComma a = a := by
    have hmap : args.map withoutComma = args.map id := by rw [List.map_id, ← hargs]
    exact List.map_inj_left.1 hmap a ha
  refine ⟨by simpa using hne a (by simp [ha]), ?_, ?_, hstrip⟩
  all_goals
    rintro rfl
    rcases hr with hr | ⟨-, he, hd⟩
    · rw [(List.cons.inj hr).2] at ha
      cases ha
  · rcases List.eq_nil_or_concat args with rfl | ⟨front, last, rfl⟩
    · cases ha
    · rw [List.concat_eq_append, ← List.cons_append, List.dropLast_concat] at hd
      rw [List.concat_eq_append, List.getLast?_concat] at hdo
      rw [List.concat_eq_append] at ha
      rcases List.mem_append.1 ha with ha | ha
      · exact hd (by simp [ha])
      · exact hdo (by rw [List.mem_singleton.1 ha])
  · exact he (by simp [ha])

theorem legible_of_heads {s s' : Statement} {l : Line} {number depth : Nat} (hs : s.Accepted)
    (hl : linesOf number (s.firstLine depth).toList = [l]) (hh : Heads l.words s')
    (hsame : sameShape s s' = true) : s.Legible := by
  have hwords : l.words = words (codeOf (s.firstLine depth).toList) := by
    rw [← flatMap_words_linesOf number, hl]
    simp
  have hheading := Statement.heading_of_sameShape hsame
  have hformed : l.Formed :=
    formed_of_mem_linesOf (hs.printable.isLine depth).1 (hl ▸ List.mem_singleton_self l)
  obtain ⟨hbare, hout⟩ : (cutComment false s.heading.toList).2 = none ∧
      (s.comment.isSome → quotedAfter false s.heading.toList = false) := by
    refine bare_of_count ?_
    have hcount := hh.count_eq
    rw [hwords, hheading, Statement.firstLine, words_codeOf_indented, count_joinWords_words rfl] at hcount
    exact hcount
  rw [Statement.firstLine, words_codeOf_printed hbare hout] at hwords
  rw [hwords] at hh
  have hrun := hformed.run
  rw [hwords] at hrun
  refine ⟨hbare, hout, ?_⟩
  have hread := hs.heading
  cases s with
  | empty mark => trivial
  | loop mark count body => trivial
  | when mark guard body => trivial
  | call mark name args =>
    obtain ⟨ws, rfl, hw, -⟩ := hread
    obtain ⟨mark', rfl⟩ : ∃ mark', s' = .call mark' name (ws.map withoutComma) := by
      cases s' <;> simp_all [sameShape]
    refine legibleArgument_of_heads (wording_call hw) (hrun ?_) (hh.place mark [])
    obtain ⟨args', hws, -⟩ := hh.words_of_call
    simp [hws]
  | define mark name params body =>
    obtain ⟨body', hb, -⟩ := Statement.block_of_sameShape hsame rfl
    obtain ⟨keyword, inner, hne, hws⟩ := hh.words_of_block hb
    rw [hws] at hrun
    rw [Statement.LegibleWords, hws]
    refine ⟨?_, by rw [← List.cons_append, List.getLast?_concat], ?_⟩
    · -- without a name, there is nothing between `draw` and `do`
      rintro rfl
      have hparams : params = [] := by
        rcases hread with h | h
        · exact h.2
        · exact absurd rfl (h "" (by simp)).1.1
      have hnothing : words (joinWords ["draw", "", "do"]).toList = ["draw", "do"] := by
        decide +kernel
      rw [heading_define, hparams, List.cons_append, List.nil_append, hnothing] at hws
      have hlen := congrArg List.length hws
      simp only [List.length_cons, List.length_append, List.length_nil] at hlen
      exact hne (List.eq_nil_of_length_eq_zero (by omega))
    · rcases hrun (by simp) with hr | hr
      · simp at hr
      · exact ⟨hr.2.2, hr.2.1⟩

/-! ## Counting lines -/

theorem Spells.length_eq {ls : List Line} {program : List Statement} (h : Spells ls program) :
    ∀ depth, ls.length = (layoutAll depth program).length := by
  induction h with
  | nil => intro depth; rfl
  | leaf hh hm hb _ ih =>
    intro depth
    rw [layoutAll, Statement.layout_of_leaf hb]
    simp [ih depth]
  | block hh hm hb _ hc _ ihb ih =>
    intro depth
    rw [layoutAll, Statement.layout_of_block hb]
    simp [ih depth, ihb (depth + 1)]

theorem Spells.of_leaf {ls : List Line} {s : Statement} {rest : List Statement}
    (h : Spells ls (s :: rest)) (hb : s.body? = none) :
    ∃ l ls', ls = l :: ls' ∧ Heads l.words s ∧ Spells ls' rest := by
  cases h with
  | leaf hh hm _ hrest => exact ⟨_, _, rfl, hh, hrest⟩
  | block hh hm hb' hin hc hrest =>
    rw [hb] at hb'
    cases hb'

theorem Spells.of_block {ls : List Line} {s : Statement} {body rest : List Statement}
    (h : Spells ls (s :: rest)) (hb : s.body? = some body) :
    ∃ l inside close ls', ls = l :: (inside ++ close :: ls') ∧ Heads l.words s ∧
      Spells inside body ∧ Spells ls' rest := by
  cases h with
  | leaf hh hm hb' hrest =>
    rw [hb] at hb'
    cases hb'
  | block hh hm hb' hin hc hrest =>
    rw [hb] at hb'
    cases hb'
    exact ⟨_, _, _, _, rfl, hh, hin, hrest⟩

theorem length_le_linesFrom {raws : List (List Char)}
    (h : ∀ raw ∈ raws, ∀ number, linesOf number raw ≠ []) (number : Nat) :
    raws.length ≤ (linesFrom number raws).length := by
  induction raws generalizing number with
  | nil => exact Nat.zero_le _
  | cons raw raws ih =>
    obtain ⟨hraw, hraws⟩ := List.forall_mem_cons.1 h
    have hpos := List.length_pos_iff.2 (hraw number)
    have hrest := ih hraws (number + 1)
    rw [linesFrom, List.length_cons, List.length_append]
    omega

theorem linesOf_head_of_length {raw : List Char} {raws : List (List Char)} {number : Nat}
    (h : ∀ r ∈ raw :: raws, ∀ number, linesOf number r ≠ [])
    (hlen : (linesFrom number (raw :: raws)).length = (raw :: raws).length) :
    ∃ l, linesOf number raw = [l] := by
  obtain ⟨hraw, hraws⟩ := List.forall_mem_cons.1 h
  have hpos := List.length_pos_iff.2 (hraw number)
  have hrest := length_le_linesFrom hraws (number + 1)
  rw [linesFrom, List.length_append, List.length_cons] at hlen
  exact List.length_eq_one_iff.1 (by omega)

/-- No printed line is lost. -/
theorem linesOf_layoutAll_ne_nil {program : List Statement}
    (h : ∀ s ∈ preorderAll program, s.Accepted) (depth : Nat) :
    ∀ raw ∈ (layoutAll depth program).map String.toList, ∀ number, linesOf number raw ≠ [] := by
  intro raw hraw
  obtain ⟨l, hl, rfl⟩ := List.mem_map.1 hraw
  refine forall_mem_layoutAll (P := fun l => ∀ number, linesOf number l.toList ≠ []) ?_ ?_ depth l hl
  · intro depth number
    rw [linesOf_end]
    simp
  · intro s hs depth number
    exact linesOf_firstLine_ne_nil (h s hs) number depth

/-- A program that keeps its shape is read from as many logical lines as it was printed on. -/
theorem Spells.length_printed {program again : List Statement} {number depth : Nat}
    (h : Spells (linesFrom number ((layoutAll depth program).map String.toList)) again)
    (hsame : sameShapes program again = true) :
    (linesFrom number ((layoutAll depth program).map String.toList)).length =
      ((layoutAll depth program).map String.toList).length := by
  rw [h.length_eq depth, Statement.length_layoutAll_of_sameShapes hsame, List.length_map]

theorem legible_of_spells {program : List Statement} :
    ∀ {again : List Statement} {number depth : Nat}, (∀ s ∈ preorderAll program, s.Accepted) →
      Spells (linesFrom number ((layoutAll depth program).map String.toList)) again →
      sameShapes program again = true → ∀ s ∈ preorderAll program, s.Legible := by
  induction program using Statement.body_induction with
  | nil => intro again number depth _ _ _ s hs; cases hs
  | leaf s rest hb ih =>
    intro again number depth hacc hsp hsame
    have hkept := linesOf_layoutAll_ne_nil hacc depth
    have hlen := hsp.length_printed hsame
    rw [layoutAll, Statement.layout_of_leaf hb, List.singleton_append, List.map_cons] at hkept hlen hsp
    rw [preorderAll, Statement.preorder_of_leaf hb] at hacc ⊢
    obtain ⟨s', rest', rfl, hs, hrest⟩ := Statement.sameShapes_cons hsame
    obtain ⟨l, hl⟩ := linesOf_head_of_length hkept hlen
    rw [linesFrom, hl, List.singleton_append] at hsp
    obtain ⟨l', ls, hls, hheads, hspells⟩ := hsp.of_leaf (Statement.leaf_of_sameShape hs hb)
    obtain ⟨rfl, rfl⟩ := List.cons.inj hls
    intro x hx
    rcases List.mem_cons.1 hx with rfl | hx
    · exact legible_of_heads (hacc x (by simp)) hl hheads hs
    · exact ih (fun y hy => hacc y (by simp [hy])) hspells hrest x hx
  | block s body rest hb ihb ih =>
    intro again number depth hacc hsp hsame
    have hkept := linesOf_layoutAll_ne_nil hacc depth
    have hlen := hsp.length_printed hsame
    rw [layoutAll, Statement.layout_of_block hb, List.cons_append, List.append_assoc,
      List.singleton_append, List.map_cons, List.map_append, List.map_cons] at hkept hlen hsp
    rw [preorderAll, Statement.preorder_of_block hb] at hacc ⊢
    have haccb : ∀ x ∈ preorderAll body, x.Accepted := fun x hx => hacc x (by simp [hx])
    have haccr : ∀ x ∈ preorderAll rest, x.Accepted := fun x hx => hacc x (by simp [hx])
    obtain ⟨s', rest', rfl, hs, hrest⟩ := Statement.sameShapes_cons hsame
    obtain ⟨body', hb', hbody⟩ := Statement.block_of_sameShape hs hb
    obtain ⟨l, hl⟩ := linesOf_head_of_length hkept hlen
    rw [linesFrom, hl, List.singleton_append, linesFrom_append, linesFrom, linesOf_end,
      List.singleton_append] at hsp hlen
    obtain ⟨l', inside, close, ls, hls, hheads, hin, hspells⟩ := hsp.of_block hb'
    obtain ⟨rfl, htail⟩ := List.cons.inj hls
    -- the body takes as many lines as it was printed on, so its lines are those printed for it
    have hinside : (linesFrom (number + 1) ((layoutAll (depth + 1) body).map String.toList)).length =
        inside.length := by
      have hbody_le := length_le_linesFrom (linesOf_layoutAll_ne_nil haccb (depth + 1)) (number + 1)
      have hrest_le := length_le_linesFrom (linesOf_layoutAll_ne_nil haccr depth)
        (number + 1 + ((layoutAll (depth + 1) body).map String.toList).length + 1)
      rw [hin.length_eq (depth + 1), Statement.length_layoutAll_of_sameShapes hbody]
      simp only [List.length_cons, List.length_append, List.length_map] at hlen hbody_le hrest_le ⊢
      omega
    obtain ⟨rfl, hclose⟩ := List.append_inj htail hinside
    obtain ⟨-, rfl⟩ := List.cons.inj hclose
    intro x hx
    rcases List.mem_cons.1 hx with rfl | hx
    · exact legible_of_heads (hacc x (by simp)) hl hheads hs
    · rcases List.mem_append.1 hx with hx | hx
      · exact ihb haccb hin hbody x hx
      · exact ih haccr hspells hrest x hx

/-! ## Programs that keep their shape -/

/-- A program that was read keeps its shape when it is printed and read again exactly if all its
statements are legible. -/
theorem parse_render_sameShapes_iff {source : String} {program : List Statement}
    (h : parse source = .ok program) :
    (∃ again, parse (render program) = .ok again ∧ sameShapes program again = true) ↔
      ∀ s ∈ preorderAll program, s.Legible := by
  have hacc := accepted_of_parse h
  constructor
  · rintro ⟨again, hagain, hsame⟩
    have hsp := spells_of_parse hagain
    rw [lines_render fun s hs => (hacc s hs).printable] at hsp
    exact legible_of_spells hacc hsp hsame
  · intro hl
    have hdeep := (ofLines_eq_ok_iff.1 h).2
    obtain ⟨again, hagain, heq⟩ :=
      parse_render_of_readable (fun s hs => readable_of_legible (hacc s hs) (hl s hs)) hdeep
    exact ⟨again, hagain, Statement.sameShapes_of_unnumberedAll program again heq⟩

theorem parse_render_repeated_label :
    ∃ program, parse "for 2 do # twice\n label \"#1\" 5,\nend" = .ok program ∧
      ∃ again, parse (render program) = .ok again ∧ sameShapes program again = true := by
  have hlines : lines "for 2 do # twice\n label \"#1\" 5,\nend" =
      [⟨1, ["for", "2", "do"], some "twice"⟩, ⟨2, ["label", "\"#1\"", "5,"], none⟩,
        ⟨3, ["end"], none⟩] := by
    decide +kernel
  have hparse : parse "for 2 do # twice\n label \"#1\" 5,\nend" =
      .ok [.loop ⟨1, some "twice"⟩ (joinWords ["2"])
        [.call ⟨2, none⟩ "label" (["\"#1\"", "5,"].map withoutComma)]] := by
    rw [parse, hlines]
    refine ofLines_eq_ok_iff.2 ⟨?_, by decide⟩
    have hbody : Spells [⟨2, ["label", "\"#1\"", "5,"], none⟩]
        [.call ⟨2, none⟩ "label" (["\"#1\"", "5,"].map withoutComma)] :=
      .leaf (.call _ (by decide) rfl (by decide)) rfl rfl .nil
    exact .block (@Heads.block _ "for" .loop ["2"] _ rfl (by simp)) rfl rfl hbody rfl .nil
  exact ⟨_, hparse, (parse_render_sameShapes_iff hparse).2 (by decide +kernel)⟩

theorem parse_of_call_line {source name : String} {args : List String} {number : Nat}
    (h : lines source = [⟨number, name :: args, none⟩]) (hend : name ≠ "end")
    (hkey : BlockKind.ofKeyword? name = none) (hdo : args.getLast? ≠ some "do") :
    parse source = .ok [.call ⟨number, none⟩ name (args.map withoutComma)] := by
  rw [parse, h]
  exact ofLines_eq_ok_iff.2 ⟨.leaf (.call _ hend hkey hdo) rfl rfl .nil,
    Nat.zero_lt_succ _⟩

/-- Only one of two commas behind an argument is dropped, and the other when it is read again. -/
theorem parse_render_double_comma :
    ∃ program, parse "fw 1,," = .ok program ∧
      ¬∃ again, parse (render program) = .ok again ∧ sameShapes program again = true := by
  have hfirst := @parse_of_call_line "fw 1,," "fw" ["1,,"] 1 (by decide +kernel) (by decide) rfl
    (by decide)
  refine ⟨_, hfirst, ?_⟩
  have hsecond := @parse_of_call_line
    (render [.call ⟨1, none⟩ "fw" (["1,,"].map withoutComma)]) "fw" ["1,"] 1 (by decide +kernel)
    (by decide) rfl (by decide)
  rw [hsecond]
  rintro ⟨again, hagain, hsame⟩
  cases hagain
  revert hsame
  decide +kernel

end Program
end TurtleGraphics
