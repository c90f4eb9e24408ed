import TurtleGraphics.Program.Block
import TurtleGraphics.Proofs.Fields

/-!
# TurtleGraphics.Proofs.Wording

How words survive being joined by spaces and cut again. A word is closed when its fields make up that
word whatever follows them; the last word of a line need not be closed, because a quote that stays open
runs to the end of the line. `Wording ws` says that all words of `ws` but the last are closed:

* `wording_words`: the words of any code are a wording.
* `words_joinWords`: a wording, joined by spaces, is cut into the same words.
* `joinWords_words`: no character but blanks is lost when code is cut into words.
* `words_settled`: code, its words and its fields have the same text but for blanks, and this text has the
  same words.
-/

namespace TurtleGraphics
namespace Program

open Text (fields isBlank joinWords)

/-! ## Closed words -/

/-- The fields of `w` make up the word `w`, whatever fields follow. -/
def ClosedWord (w : String) : Prop :=
  ∀ rest, joinQuoted none (fields w.toList ++ rest) = w.toList :: joinQuoted none rest

/-- The fields of `w` make up the word `w` if no others follow. -/
def LastWord (w : String) : Prop :=
  joinQuoted none (fields w.toList) = [w.toList]

/-- The fields of `phrase` leave a quote open. -/
def Pending (phrase : List Char) : Prop :=
  ∀ rest, joinQuoted none (fields phrase ++ rest) = joinQuoted (some phrase) rest

theorem ClosedWord.lastWord {w : String} (h : ClosedWord w) : LastWord w := by
  simpa [LastWord, joinQuoted] using h []

theorem closedWord_of_field {f : List Char} (hf : Text.IsField f) (ho : opensQuote f = false) :
    ClosedWord (String.ofList f) := by
  intro rest
  simp [Text.fields_of_isField hf, joinQuoted, ho]

theorem pending_of_field {f : List Char} (hf : Text.IsField f) (ho : opensQuote f = true) :
    Pending f := by
  intro rest
  simp [Text.fields_of_isField hf, joinQuoted, ho]

theorem Pending.extend {phrase f : List Char} (h : Pending phrase) (hf : Text.IsField f)
    (he : endsWithQuote f = false) : Pending (phrase ++ ' ' :: f) := by
  intro rest
  rw [Text.fields_append_space, Text.fields_of_isField hf, List.append_assoc, h]
  simp [joinQuoted, he]

theorem Pending.close {phrase f : List Char} (h : Pending phrase) (hf : Text.IsField f)
    (he : endsWithQuote f = true) : ClosedWord (String.ofList (phrase ++ ' ' :: f)) := by
  intro rest
  rw [String.toList_ofList, Text.fields_append_space, Text.fields_of_isField hf, List.append_assoc, h]
  simp [joinQuoted, he]

theorem Pending.lastWord {phrase : List Char} (h : Pending phrase) :
    LastWord (String.ofList phrase) := by
  simpa [LastWord, joinQuoted] using h []

/-! ## Wordings -/

/-- Words that can stand on a line: all but the last are closed. -/
inductive Wording : List String → Prop where
  | nil : Wording []
  | last {w : String} : LastWord w → Wording [w]
  | cons {w : String} {ws : List String} : ClosedWord w → Wording ws → Wording (w :: ws)

theorem wording_joinQuoted {fs : List (List Char)} (hf : ∀ f ∈ fs, Text.IsField f) :
    Wording ((joinQuoted none fs).map String.ofList) ∧
      ∀ phrase, Pending phrase → Wording ((joinQuoted (some phrase) fs).map String.ofList) := by
  induction fs with
  | nil => exact ⟨.nil, fun phrase hp => .last hp.lastWord⟩
  | cons f fs ih =>
    have hff := hf f (by simp)
    obtain ⟨ihn, ihs⟩ := ih fun x hx => hf x (by simp [hx])
    constructor
    · cases ho : opensQuote f with
      | true => simpa [joinQuoted, ho] using ihs f (pending_of_field hff ho)
      | false => simpa [joinQuoted, ho] using Wording.cons (closedWord_of_field hff ho) ihn
    · intro phrase hp
      cases he : endsWithQuote f with
      | true => simpa [joinQuoted, he] using Wording.cons (hp.close hff he) ihn
      | false => simpa [joinQuoted, he] using ihs _ (hp.extend hff he)

theorem wording_words (code : List Char) : Wording (words code) :=
  (wording_joinQuoted fun _ hf => Text.isField_of_mem_fields hf).1

theorem joinQuoted_flatMap {ws : List String} (h : Wording ws) :
    joinQuoted none (ws.flatMap fun w => fields w.toList) = ws.map String.toList := by
  induction h with
  | nil => rfl
  | last hw => simpa [LastWord] using hw
  | cons hw _ ih => rw [List.flatMap_cons, hw, ih]; rfl

theorem fields_joinWords (ws : List String) :
    fields (joinWords ws).toList = ws.flatMap fun w => fields w.toList := by
  rw [Text.toList_joinWords, Text.fields_intercalate, List.flatMap_map]

theorem words_joinWords {ws : List String} (h : Wording ws) : words (joinWords ws).toList = ws := by
  rw [words, fields_joinWords, joinQuoted_flatMap h]
  simp [Function.comp_def]

theorem words_trim (code : List Char) : words (Text.trim code) = words code := by
  rw [words, words, Text.fields_trim]

namespace Wording

theorem of_closed {ws : List String} (h : ∀ w ∈ ws, ClosedWord w) : Wording ws := by
  induction ws with
  | nil => exact .nil
  | cons w ws ih => exact .cons (h w (by simp)) (ih fun x hx => h x (by simp [hx]))

theorem tail {w : String} {ws : List String} (h : Wording (w :: ws)) : Wording ws := by
  cases h with
  | last _ => exact .nil
  | cons _ hws => exact hws

theorem closed_head {w : String} {ws : List String} (h : Wording (w :: ws)) (hne : ws ≠ []) :
    ClosedWord w := by
  cases h with
  | last _ => exact absurd rfl hne
  | cons hw _ => exact hw

theorem right {a b : List String} (h : Wording (a ++ b)) : Wording b := by
  induction a with
  | nil => exact h
  | cons w a ih => exact ih h.tail

theorem closed_left {a b : List String} (h : Wording (a ++ b)) (hb : b ≠ []) :
    ∀ w ∈ a, ClosedWord w := by
  induction a with
  | nil => simp
  | cons w a ih =>
    intro x hx
    rcases List.mem_cons.1 hx with rfl | hx
    · exact h.closed_head (by simp [hb])
    · exact ih h.tail x hx

theorem left {a b : List String} (h : Wording (a ++ b)) : Wording a := by
  cases b with
  | nil => simpa using h
  | cons x b => exact of_closed (h.closed_left (by simp))

theorem lastWord {ws : List String} (h : Wording ws) : ∀ w ∈ ws, LastWord w := by
  induction h with
  | nil => simp
  | last hw => simpa using hw
  | cons hw _ ih =>
    intro x hx
    rcases List.mem_cons.1 hx with rfl | hx
    · exact hw.lastWord
    · exact ih x hx

end Wording

/-! ## Characters of words -/

theorem spaced_joinQuoted (fs : List (List Char)) :
    (joinQuoted none fs).flatMap (' ' :: ·) = fs.flatMap (' ' :: ·) ∧
      ∀ phrase, (joinQuoted (some phrase) fs).flatMap (' ' :: ·) =
        ' ' :: phrase ++ fs.flatMap (' ' :: ·) := by
  induction fs with
  | nil => simp [joinQuoted]
  | cons f fs ih =>
    constructor
    · cases ho : opensQuote f <;> simp [joinQuoted, ho, ih.1, ih.2]
    · intro phrase
      cases he : endsWithQuote f <;> simp [joinQuoted, he, ih.1, ih.2]

theorem intercalate_joinQuoted (fs : List (List Char)) :
    [' '].intercalate (joinQuoted none fs) = [' '].intercalate fs := by
  rw [Text.intercalate_eq_tail, Text.intercalate_eq_tail, (spaced_joinQuoted fs).1]

theorem joinWords_words (code : List Char) :
    (joinWords (words code)).toList = [' '].intercalate (fields code) := by
  rw [Text.toList_joinWords, words, List.map_map]
  simpa [Function.comp_def] using intercalate_joinQuoted (fields code)

/-- The words have the fields of the code. -/
theorem fields_joinWords_words (code : List Char) :
    fields (joinWords (words code)).toList = fields code := by
  rw [joinWords_words, Text.fields_intercalate,
    Text.flatMap_fields fun _ hf => Text.isField_of_mem_fields hf]

theorem words_eq_nil_iff {code : List Char} : words code = [] ↔ fields code = [] := by
  constructor
  · intro h
    rw [← fields_joinWords_words, h]
    rfl
  · intro h
    rw [words, h]
    rfl

/-- Cutting into words loses no field, and is settled by the fields alone: joined by single spaces, the
words are the text of the fields, and this text is cut into the same words again. -/
theorem words_settled (code : List Char) :
    joinWords (words code) = joinWords ((fields code).map String.ofList) ∧
      words (joinWords ((fields code).map String.ofList)).toList = words code := by
  have hjoined : joinWords (words code) = joinWords ((fields code).map String.ofList) := by
    rw [← String.toList_inj, joinWords_words, Text.toList_joinWords, List.map_map]
    simp [Function.comp_def]
  refine ⟨hjoined, ?_⟩
  rw [← hjoined]
  exact words_joinWords (wording_words code)

theorem count_joinWords_words {c : Char} (hc : isBlank c = false) (code : List Char) :
    (joinWords (words code)).toList.count c = code.count c := by
  have hs : c ≠ ' ' := by rintro rfl; cases hc
  rw [joinWords_words, Text.count_intercalate hs, Text.count_fields hc]

namespace LastWord

theorem toList_eq {w : String} (h : LastWord w) : w.toList = [' '].intercalate (fields w.toList) := by
  rw [← intercalate_joinQuoted, h, List.intercalate_singleton]

theorem ne_empty {w : String} (h : LastWord w) : w ≠ "" := by
  rintro rfl
  simp [LastWord, joinQuoted] at h

theorem blank_eq_space {w : String} (h : LastWord w) {c : Char} (hc : c ∈ w.toList) :
    c = ' ' ∨ isBlank c = false := by
  rw [h.toList_eq] at hc
  refine (Text.mem_intercalate hc).imp_right ?_
  rintro ⟨f, hf, hc⟩
  exact (Text.isField_of_mem_fields hf).2 c hc

/-- A word that does not start with a quote is a single field. -/
theorem isField {w : String} (h : LastWord w) (hq : startsWithQuote w.toList = false) :
    Text.IsField w.toList := by
  have hw := h.toList_eq
  have hf : ∀ f ∈ fields w.toList, Text.IsField f := fun f hf => Text.isField_of_mem_fields hf
  rw [LastWord] at h
  cases hfs : fields w.toList with
  | nil => simp [hfs, joinQuoted] at h
  | cons f fs =>
    have hff := hf f (by simp [hfs])
    have hstart : startsWithQuote f = startsWithQuote w.toList := by
      obtain ⟨c, cs, rfl⟩ := List.exists_cons_of_ne_nil hff.1
      rw [hw, hfs, Text.intercalate_eq_tail]
      rfl
    have ho : opensQuote f = false := by simp [opensQuote, hstart, hq]
    rw [hfs, joinQuoted, if_neg (by simp [ho])] at h
    have : w.toList = f := (List.cons.inj h).1.symm
    rwa [this]

end LastWord

/-! ## Commas -/

theorem withoutComma_of_quote {w : String} (hq : startsWithQuote w.toList = true) :
    withoutComma w = w := by
  simp [withoutComma, hq]

theorem withoutComma_isPrefix (w : String) : (withoutComma w).toList <+: w.toList := by
  simp only [withoutComma]
  split
  · exact List.prefix_refl _
  · split
    · rw [String.toList_ofList]; exact List.dropLast_prefix _
    · exact List.prefix_refl _

theorem count_withoutComma {c : Char} (hc : c ≠ ',') (w : String) :
    (withoutComma w).toList.count c = w.toList.count c := by
  simp only [withoutComma]
  split
  · rfl
  · split
    · rename_i hl
      have hl : w.toList.getLast? = some ',' := by simpa using hl
      obtain ⟨ys, hys⟩ := List.getLast?_eq_some_iff.1 hl
      rw [String.toList_ofList, hys, List.dropLast_concat, List.count_append]
      simp [hc.symm]
    · rfl

theorem LastWord.closed_withoutComma {w : String} (h : LastWord w)
    (hq : startsWithQuote w.toList = false) (hne : withoutComma w ≠ "") :
    ClosedWord (withoutComma w) := by
  have hpre := withoutComma_isPrefix w
  have hnil : (withoutComma w).toList ≠ [] := by simpa using hne
  have hf : Text.IsField (withoutComma w).toList :=
    ⟨hnil, fun c hc => (h.isField hq).2 c (hpre.subset hc)⟩
  have hstart : startsWithQuote (withoutComma w).toList = false := by
    obtain ⟨t, ht⟩ := hpre
    obtain ⟨c, cs, hcs⟩ := List.exists_cons_of_ne_nil hnil
    rw [← ht, hcs] at hq
    rw [hcs]
    exact hq
  have := closedWord_of_field hf (by simp [opensQuote, hstart])
  rwa [String.ofList_toList] at this

/-- Words that lose their commas are still words; those that were commas only are gone. -/
theorem Wording.strip {ws : List String} (h : Wording ws) :
    Wording ((ws.map withoutComma).filter (· ≠ "")) := by
  induction h with
  | nil => exact .nil
  | @last w hw =>
    cases hq : startsWithQuote w.toList with
    | true => simpa [withoutComma_of_quote hq, hw.ne_empty] using Wording.last hw
    | false =>
      by_cases hne : withoutComma w = ""
      · simpa [hne] using Wording.nil
      · simpa [hne] using Wording.last (hw.closed_withoutComma hq hne).lastWord
  | @cons w ws hw _ ih =>
    cases hq : startsWithQuote w.toList with
    | true => simpa [withoutComma_of_quote hq, hw.lastWord.ne_empty] using Wording.cons hw ih
    | false =>
      by_cases hne : withoutComma w = ""
      · simpa [hne] using ih
      · simpa [hne] using Wording.cons (hw.lastWord.closed_withoutComma hq hne) ih

theorem words_joinWords_filter {ws : List String} (h : Wording (ws.filter (· ≠ ""))) :
    words (joinWords ws).toList = ws.filter (· ≠ "") := by
  have hf : fields (joinWords ws).toList = fields (joinWords (ws.filter (· ≠ ""))).toList := by
    rw [fields_joinWords, fields_joinWords]
    clear h
    induction ws with
    | nil => rfl
    | cons w ws ih =>
      by_cases hw : w = ""
      · simpa [hw] using ih
      · simpa [hw] using ih
  rw [words, hf]
  exact words_joinWords h

end Program
end TurtleGraphics
