import TurtleGraphics.Proofs.PrintedLines

/-!
# TurtleGraphics.Proofs.Headings

What it takes for the heading of a call or of a block to be readable. A heading is words joined by
spaces; it is readable when it is cut into words that head the same statement.
-/

namespace TurtleGraphics
namespace Program

open Text (fields isBlank joinWords)

/-! ## Texts of headings -/

theorem joinWords_block (keyword : String) {inner : List String} (hne : inner ≠ []) :
    joinWords (keyword :: (inner ++ ["do"])) = keyword ++ " " ++ joinWords inner ++ " do" := by
  have hdo : " do" = " " ++ "do" := rfl
  rw [joinWords, String.intercalate_cons_of_ne_nil (by simp),
    String.intercalate_append_of_ne_nil hne (by simp), String.intercalate_singleton, joinWords, hdo,
    ← String.append_assoc, ← String.append_assoc, ← String.append_assoc]

theorem heading_loop (mark : Mark) {inner : List String} (hne : inner ≠ [])
    (body : List Statement) :
    (Statement.loop mark (joinWords inner) body).heading =
      joinWords ("for" :: (inner ++ ["do"])) := by
  rw [joinWords_block "for" hne]
  rfl

theorem heading_when (mark : Mark) {inner : List String} (hne : inner ≠ [])
    (body : List Statement) :
    (Statement.when mark (joinWords inner) body).heading =
      joinWords ("when" :: (inner ++ ["do"])) := by
  rw [joinWords_block "when" hne]
  rfl

theorem heading_define (mark : Mark) (name : String) (params : List String)
    (body : List Statement) :
    (Statement.define mark name params body).heading =
      joinWords ("draw" :: (name :: params ++ ["do"])) :=
  rfl

theorem blank_eq_space_joinWords {ws : List String}
    (h : ∀ w ∈ ws, ∀ c ∈ w.toList, c = ' ' ∨ isBlank c = false) :
    ∀ c ∈ (joinWords ws).toList, c = ' ' ∨ isBlank c = false := by
  intro c hc
  rw [Text.toList_joinWords] at hc
  rcases Text.mem_intercalate hc with rfl | ⟨t, ht, hc⟩
  · exact .inl rfl
  · obtain ⟨w, hw, rfl⟩ := List.mem_map.1 ht
    exact h w hw c hc

/-! ## Keywords -/

theorem closedWord_of_plain {w : String} (hf : Text.IsField w.toList) (hq : '"' ∉ w.toList) :
    ClosedWord w := by
  have hs : startsWithQuote w.toList = false := by
    obtain ⟨c, cs, hcs⟩ := List.exists_cons_of_ne_nil hf.1
    have hc : c ≠ '"' := fun h => hq (by simp [hcs, h])
    simp [startsWithQuote, hcs, hc]
  have := closedWord_of_field hf (by simp [opensQuote, hs])
  rwa [String.ofList_toList] at this

/-- The words of the language are plain. -/
theorem plain_keyword {w : String} (h : w ∈ ["for", "loop", "when", "draw", "def", "do"]) :
    Text.IsField w.toList ∧ '"' ∉ w.toList ∧ '#' ∉ w.toList := by
  revert w
  decide

theorem closedWord_keyword {w : String} (h : w ∈ ["for", "loop", "when", "draw", "def", "do"]) :
    ClosedWord w :=
  closedWord_of_plain (plain_keyword h).1 (plain_keyword h).2.1

theorem mem_of_ofKeyword {w : String} {kind : BlockKind} (h : BlockKind.ofKeyword? w = some kind) :
    w ∈ ["for", "loop", "when", "draw", "def", "do"] := by
  unfold BlockKind.ofKeyword? at h
  split at h <;> simp_all

/-! ## Names in definitions -/

/-- A word that stays as it is in the header of a definition. -/
def IsName (w : String) : Prop :=
  Text.IsField w.toList ∧ ∀ c ∈ w.toList, c ≠ '(' ∧ c ≠ ')' ∧ c ≠ ','

theorem headerNames_of_joinWords {inner names : List String}
    (hj : joinWords inner = joinWords names) (hn : ∀ w ∈ names, IsName w) :
    headerNames inner = names := by
  have hkeep : ((joinWords names).toList.map fun c =>
      if c == '(' || c == ')' || c == ',' then ' ' else c) = (joinWords names).toList := by
    rw [List.map_congr_left (g := id), List.map_id]
    intro c hc
    rw [Text.toList_joinWords] at hc
    rcases Text.mem_intercalate hc with rfl | ⟨t, ht, hc⟩
    · rfl
    · obtain ⟨w, hw, rfl⟩ := List.mem_map.1 ht
      have := (hn w hw).2 c hc
      simp [this.1, this.2.1, this.2.2]
  have hfields : ∀ f ∈ names.map String.toList, Text.IsField f := by
    intro f hf
    obtain ⟨w, hw, rfl⟩ := List.mem_map.1 hf
    exact (hn w hw).1
  rw [headerNames, hj, hkeep, Text.toList_joinWords, Text.fields_intercalate,
    Text.flatMap_fields hfields]
  simp [Function.comp_def]

theorem isName_of_mem_headerNames {inner : List String} {w : String} (h : w ∈ headerNames inner) :
    IsName w := by
  simp only [headerNames, List.mem_map] at h
  obtain ⟨f, hf, rfl⟩ := h
  rw [IsName, String.toList_ofList]
  refine ⟨Text.isField_of_mem_fields hf, fun c hc => ?_⟩
  have hmem := (Text.mem_splitWhere (List.mem_filter.1 hf).1 c hc).2
  have hblank := (Text.isField_of_mem_fields hf).2 c hc
  obtain ⟨x, -, rfl⟩ := List.mem_map.1 hmem
  split at hblank
  · cases hblank
  · rename_i hx
    rw [if_neg hx]
    simp only [Bool.or_eq_true, beq_iff_eq, not_or] at hx
    exact ⟨hx.1.1, hx.1.2, hx.2⟩

/-! ## Readable headings -/

theorem readable_call {mark : Mark} {name : String} {args : List String}
    (hp : (Statement.call mark name args).Printable)
    (hbare : (cutComment false (Statement.call mark name args).heading.toList).2 = none)
    (hout : mark.comment.isSome →
      quotedAfter false (Statement.call mark name args).heading.toList = false)
    (hw : Wording (name :: args)) (hend : name ≠ "end") (hkey : BlockKind.ofKeyword? name = none)
    (hdo : name = "do" → args = [])
    (hargs : ∀ a ∈ args, a ≠ "do" ∧ a ≠ "end" ∧ withoutComma a = a) :
    (Statement.call mark name args).Readable := by
  have hwords : words (Statement.call mark name args).heading.toList = name :: args :=
    words_joinWords hw
  have hnodo : "do" ∉ args := fun h => (hargs _ h).1 rfl
  have hnoend : "end" ∉ args := fun h => (hargs _ h).2.1 rfl
  have hstrip : args.map withoutComma = args := by
    rw [List.map_congr_left (g := id) fun a ha => (hargs a ha).2.2, List.map_id]
  refine ⟨hp, hbare, hout, ?_, fun _ => ?_, fun h => ?_⟩
  · have := Heads.call mark hend hkey fun h => hnodo (List.mem_of_getLast? h)
    rw [hstrip] at this
    rw [hwords]
    exact this
  · rw [hwords]
    refine .inr ⟨by simp, by simp [hend.symm, hnoend], fun h => ?_⟩
    cases args with
    | nil => cases h
    | cons a args =>
      rw [List.dropLast_cons_of_ne_nil (by simp), List.mem_cons] at h
      rcases h with h | h
      · cases hdo h.symm
      · exact hnodo ((List.dropLast_sublist _).subset h)
  · rw [hwords] at h
    cases h

theorem readable_block {s : Statement} {keyword : String} {kind : BlockKind} {inner : List String}
    {body : List Statement} (hp : s.Printable)
    (hbare : (cutComment false s.heading.toList).2 = none)
    (hout : s.comment.isSome → quotedAfter false s.heading.toList = false)
    (hwords : words s.heading.toList = keyword :: (inner ++ ["do"]))
    (hkey : BlockKind.ofKeyword? keyword = some kind) (hne : inner ≠ [])
    (hno : "do" ∉ inner ∧ "end" ∉ inner) (hs : kind.statement s.mark inner body = s) :
    s.Readable := by
  have hkend := ne_end_of_ofKeyword hkey
  have hkdo : keyword ≠ "do" := by
    rintro rfl
    cases hkey
  refine ⟨hp, hbare, hout, ?_, fun _ => ?_, fun h => ?_⟩
  · have := Heads.block s.mark body hkey hne
    rw [hs] at this
    rw [hwords]
    exact this
  · rw [hwords]
    refine .inr ⟨by simp, by simp [hkend.symm, hno.2], ?_⟩
    rw [List.dropLast_cons_of_ne_nil (by simp), List.dropLast_concat]
    simp [hkdo.symm, hno.1]
  · rw [hwords] at h
    cases h

end Program
end TurtleGraphics
