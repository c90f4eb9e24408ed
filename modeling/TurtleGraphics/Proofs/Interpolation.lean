import TurtleGraphics.Formula.Template

/-!
# TurtleGraphics.Proofs.Interpolation

Interpolation is settled by one pass. `Rewrites` says group by group what a pass makes of a text, and is
what `pass` computes (`pass_eq_ok_iff`). A pass leaves verbatim groups and at most one bracket that is
never closed, which the next pass finds again as they are, and the values it writes have no brackets
(`isNumeral_of_mem_label`). So the next pass replaces nothing (`Rewrites.settled`).

Passes are made until one replaces nothing, however many it takes: `Settles` is this loop without a bound
on their number. `interpolate_settles` puts the two together: the loop ends after at most two passes, and
the bound in `Library.interpolate` is never reached.
-/

namespace TurtleGraphics

/-! ## Characters of numbers -/

namespace Number

/-- The characters that numbers are written with. -/
def isNumeral (c : Char) : Bool :=
  c.isDigit || ['-', '.', 'i', 'n', 'f', 'N', 'a'].contains c

theorem isNumeral_of_mem_toDigits {n : Nat} {c : Char} (h : c ∈ Nat.toDigits 10 n) :
    isNumeral c = true := by
  rw [isNumeral, Nat.isDigit_of_mem_toDigits (by decide) (by decide) h]
  rfl

theorem isNumeral_of_mem_zeros {n : Nat} {c : Char} (h : c ∈ zeros n) : isNumeral c = true := by
  rw [List.eq_of_mem_replicate h]
  decide

theorem Decimal.isNumeral_of_mem_plain {d : Decimal} {c : Char} (h : c ∈ d.plain) :
    isNumeral c = true := by
  simp only [plain] at h
  split at h
  · rcases List.mem_append.1 h with h | h
    · exact isNumeral_of_mem_toDigits h
    · exact isNumeral_of_mem_zeros h
  · split at h
    · rcases List.mem_append.1 h with h | h
      · exact isNumeral_of_mem_toDigits (List.mem_of_mem_take h)
      · rcases List.mem_cons.1 h with rfl | h
        · decide
        · exact isNumeral_of_mem_toDigits (List.mem_of_mem_drop h)
    · simp only [List.mem_cons, List.mem_append] at h
      rcases h with rfl | rfl | h | h
      · decide
      · decide
      · exact isNumeral_of_mem_zeros h
      · exact isNumeral_of_mem_toDigits h

theorem isNumeral_of_mem_plainMagnitude {x : Float} {c : Char} (h : c ∈ plainMagnitude x) :
    isNumeral c = true := by
  unfold plainMagnitude at h
  split at h
  · exact List.all_eq_true.1 (by decide) c h
  · split at h
    · exact List.all_eq_true.1 (by decide) c h
    · exact Decimal.isNumeral_of_mem_plain h

theorem isNumeral_of_mem_label {x : Float} {c : Char} (h : c ∈ (label x).toList) :
    isNumeral c = true := by
  unfold label plain at h
  split at h
  · exact List.all_eq_true.1 (by decide) c h
  · split at h
    · exact List.all_eq_true.1 (by decide) c h
    · rw [String.toList_ofList] at h
      split at h
      · rcases List.mem_cons.1 h with rfl | h
        · decide
        · exact isNumeral_of_mem_plainMagnitude h
      · exact isNumeral_of_mem_plainMagnitude h

end Number

namespace Formula
namespace Template

/-! ## Groups -/

/-- The content of a group: the next closing bracket behind it closes the group. -/
def IsContent (inner : List Char) : Prop :=
  ∀ rest, splitGroup? 0 (inner ++ ']' :: rest) = some (inner, rest)

/-- What is found of a group does not depend on the text behind it. -/
theorem splitGroup?_eq_some {depth : Nat} {cs inner rest : List Char}
    (h : splitGroup? depth cs = some (inner, rest)) :
    cs = inner ++ ']' :: rest ∧
      ∀ other, splitGroup? depth (inner ++ ']' :: other) = some (inner, other) := by
  induction cs generalizing depth inner with
  | nil => cases h
  | cons c cs ih =>
    rw [splitGroup?] at h
    split at h
    · rename_i hclose
      cases h
      simp only [Bool.and_eq_true, beq_iff_eq] at hclose
      obtain ⟨rfl, rfl⟩ := hclose
      exact ⟨rfl, fun other => rfl⟩
    · rename_i hclose
      dsimp only at h
      cases hsplit : splitGroup? (if c == '[' then depth + 1 else if c == ']' then depth - 1
          else depth) cs with
      | none =>
        rw [hsplit] at h
        cases h
      | some found =>
        rw [hsplit] at h
        cases h
        obtain ⟨hcs, hother⟩ := ih hsplit
        refine ⟨congrArg (c :: ·) hcs, fun other => ?_⟩
        rw [List.cons_append, splitGroup?, if_neg hclose]
        simp only [hother other]

theorem isContent_of_splitGroup? {cs inner rest : List Char}
    (h : splitGroup? 0 cs = some (inner, rest)) : IsContent inner :=
  (splitGroup?_eq_some h).2

/-! ## What a pass does -/

section

variable {lib : Library} {vars : Scope}

/-- What a pass makes of a text, and whether it replaces anything. -/
inductive Rewrites (lib : Library) (vars : Scope) : List Char → List Char → Bool → Prop where
  | nil : Rewrites lib vars [] [] false
  | char {c : Char} {cs out : List Char} {replaced : Bool} : c ≠ '[' →
      Rewrites lib vars cs out replaced → Rewrites lib vars (c :: cs) (c :: out) replaced
  /-- A bracket that is never closed keeps the rest. -/
  | unclosed {cs : List Char} : splitGroup? 0 cs = none →
      Rewrites lib vars ('[' :: cs) ('[' :: cs) false
  | verbatim {inner cs out : List Char} {replaced : Bool} : IsContent inner →
      isVerbatim inner = true → Rewrites lib vars cs out replaced →
      Rewrites lib vars ('[' :: (inner ++ ']' :: cs)) ('[' :: (inner ++ ']' :: out)) replaced
  | value {inner value cs out : List Char} {replaced : Bool} : IsContent inner →
      isVerbatim inner = false → valueText lib vars inner = .ok value →
      Rewrites lib vars cs out replaced →
      Rewrites lib vars ('[' :: (inner ++ ']' :: cs)) (value ++ out) true

theorem rewrites_of_passFrom {skip : Nat} {cs out : List Char} {replaced : Bool}
    (h : passFrom lib vars skip cs = .ok (out, replaced)) :
    Rewrites lib vars (cs.drop skip) out replaced := by
  induction cs generalizing skip out replaced with
  | nil =>
    have hnil : passFrom lib vars skip [] = .ok ([], false) := by cases skip <;> rfl
    rw [hnil] at h
    cases h
    rw [List.drop_nil]
    exact .nil
  | cons c cs ih =>
    cases skip with
    | succ skip => exact ih h
    | zero =>
      rw [passFrom] at h
      rw [List.drop_zero]
      split at h
      · rename_i hopen
        obtain rfl : c = '[' := by simpa using hopen
        split at h
        · rename_i hsplit
          cases h
          exact .unclosed hsplit
        · rename_i inner rest hsplit
          -- a group is skipped, so the rest of the pass is over what is behind it
          have hcontent := isContent_of_splitGroup? hsplit
          obtain ⟨rfl, -⟩ := splitGroup?_eq_some hsplit
          have hdrop : (inner ++ ']' :: rest).drop (inner.length + 1) = rest := by simp
          split at h
          · rename_i hverbatim
            split at h
            · cases h
            · rename_i hrest
              cases h
              have hrest := ih hrest
              rw [hdrop] at hrest
              exact .verbatim hcontent hverbatim hrest
          · rename_i hverbatim
            split at h
            · cases h
            · rename_i hvalue
              split at h
              · cases h
              · rename_i hrest
                cases h
                have hrest := ih hrest
                rw [hdrop] at hrest
                exact .value hcontent (by simpa using hverbatim) hvalue hrest
      · rename_i hopen
        split at h
        · cases h
        · rename_i hrest
          cases h
          exact .char (by simpa using hopen) (ih hrest)

theorem passFrom_group {inner : List Char} (cs : List Char) :
    passFrom lib vars (inner.length + 1) (inner ++ ']' :: cs) = passFrom lib vars 0 cs := by
  rw [passFrom_eq_drop]
  simp

theorem Rewrites.passFrom_eq {cs out : List Char} {replaced : Bool}
    (h : Rewrites lib vars cs out replaced) : passFrom lib vars 0 cs = .ok (out, replaced) := by
  induction h with
  | nil => rfl
  | char hc _ ih => simp [passFrom, hc, ih]
  | unclosed hsplit => simp [passFrom, hsplit]
  | verbatim hcontent hverbatim _ ih =>
    simp [passFrom, hcontent _, hverbatim, passFrom_group, ih]
  | value hcontent hverbatim hvalue _ ih =>
    simp [passFrom, hcontent _, hverbatim, hvalue, passFrom_group, ih]

theorem pass_eq_ok_iff {cs out : List Char} {replaced : Bool} :
    pass lib vars cs = .ok (out, replaced) ↔ Rewrites lib vars cs out replaced :=
  ⟨rewrites_of_passFrom, Rewrites.passFrom_eq⟩

/-! ## The pass after a pass -/

theorem not_bracket_of_valueText {inner value : List Char} (h : valueText lib vars inner = .ok value) :
    '[' ∉ value := by
  unfold valueText at h
  split at h
  · cases h
  · split at h
    · cases h
    · cases h
      intro hbracket
      have := Number.isNumeral_of_mem_label hbracket
      revert this
      decide

theorem Rewrites.plain_append {a cs out : List Char} {replaced : Bool} (ha : '[' ∉ a)
    (h : Rewrites lib vars cs out replaced) : Rewrites lib vars (a ++ cs) (a ++ out) replaced := by
  induction a with
  | nil => exact h
  | cons c a ih =>
    rw [List.mem_cons, not_or] at ha
    exact .char (Ne.symm ha.1) (ih ha.2)

/-- What a pass leaves, the next pass leaves as it is. -/
theorem Rewrites.settled {cs out : List Char} {replaced : Bool}
    (h : Rewrites lib vars cs out replaced) : Rewrites lib vars out out false := by
  induction h with
  | nil => exact .nil
  | char hc _ ih => exact .char hc ih
  | unclosed hsplit => exact .unclosed hsplit
  | verbatim hcontent hverbatim _ ih => exact .verbatim hcontent hverbatim ih
  | value _ _ hvalue _ ih => exact ih.plain_append (not_bracket_of_valueText hvalue)

theorem Rewrites.bracket_mem {cs out : List Char} (h : Rewrites lib vars cs out true) :
    '[' ∈ cs := by
  generalize hreplaced : true = replaced at h
  induction h with
  | nil => cases hreplaced
  | char _ _ ih => exact List.mem_cons_of_mem _ (ih hreplaced)
  | unclosed => exact List.mem_cons_self
  | verbatim => exact List.mem_cons_self
  | value => exact List.mem_cons_self

/-! ## The loop -/

/-- Passes over a text until one fails or replaces nothing: how many are made, and what they come to. -/
inductive Settles (lib : Library) (vars : Scope) :
    List Char → Nat → Except Error (List Char) → Prop where
  | failed {cs : List Char} {e : Error} : pass lib vars cs = .error e →
      Settles lib vars cs 1 (.error e)
  | unchanged {cs out : List Char} : pass lib vars cs = .ok (out, false) →
      Settles lib vars cs 1 (.ok out)
  | again {cs out : List Char} {count : Nat} {r : Except Error (List Char)} :
      pass lib vars cs = .ok (out, true) → Settles lib vars out count r →
      Settles lib vars cs (count + 1) r

theorem passes_of_error {cs : List Char} {e : Error} (h : pass lib vars cs = .error e) (count : Nat) :
    passes lib vars (count + 1) cs = .error e := by
  rw [passes, h]

/-- Two passes are enough, and one if there is no bracket to open a group. -/
theorem passes_of_rewrites {cs out : List Char} {replaced : Bool}
    (h : Rewrites lib vars cs out replaced) :
    passes lib vars (cs.count '[' + 1) cs = .ok out := by
  rw [passes, pass_eq_ok_iff.2 h]
  cases replaced with
  | false => rfl
  | true =>
    obtain ⟨count, hcount⟩ : ∃ count, cs.count '[' = count + 1 :=
      Nat.exists_eq_succ_of_ne_zero (Nat.ne_of_gt (List.count_pos_iff.2 h.bracket_mem))
    rw [hcount]
    dsimp only
    rw [passes, pass_eq_ok_iff.2 h.settled]

theorem Rewrites.settles {cs out : List Char} {replaced : Bool}
    (h : Rewrites lib vars cs out replaced) : ∃ count ≤ 2, Settles lib vars cs count (.ok out) := by
  have hpass := pass_eq_ok_iff.2 h
  cases replaced with
  | false => exact ⟨1, by decide, .unchanged hpass⟩
  | true => exact ⟨2, by decide, .again hpass (.unchanged (pass_eq_ok_iff.2 h.settled))⟩

end

end Template

theorem Library.interpolate_of_rewrites {lib : Library} {vars : Scope} {text : String}
    {out : List Char} {replaced : Bool} (h : Template.Rewrites lib vars text.toList out replaced) :
    lib.interpolate vars text = .ok (String.ofList out) := by
  rw [interpolate, Template.passes_of_rewrites h]

/-- Interpolation reaches its fixed point in one pass. If a pass over a text succeeds, another one over
its result replaces nothing, and the result is that of interpolating the text and of interpolating it
once more. Interpolation fails exactly if the first pass does, with its error. In both cases the loop over
passes ends after at most two of them, and interpolation gives what the loop comes to. -/
theorem interpolate_settles (lib : Library) (vars : Scope) (text : String) :
    (∀ out replaced, Template.pass lib vars text.toList = .ok (out, replaced) →
      Template.pass lib vars out = .ok (out, false) ∧
      lib.interpolate vars text = .ok (String.ofList out) ∧
      lib.interpolate vars (String.ofList out) = .ok (String.ofList out)) ∧
    (∀ e, lib.interpolate vars text = .error e ↔
      Template.pass lib vars text.toList = .error e) ∧
    ∃ count ≤ 2, Template.Settles lib vars text.toList count
      ((lib.interpolate vars text).map String.toList) := by
  cases hpass : Template.pass lib vars text.toList with
  | error e =>
    have hfails : lib.interpolate vars text = .error e := by
      rw [Library.interpolate, Template.passes_of_error hpass]
    rw [hfails]
    refine ⟨?_, fun e => by simp, 1, by decide, .failed hpass⟩
    intro out replaced h
    cases h
  | ok result =>
    obtain ⟨out, replaced⟩ := result
    have hrewrites := Template.pass_eq_ok_iff.1 hpass
    have hgives := Library.interpolate_of_rewrites hrewrites
    obtain ⟨count, hcount, hsettles⟩ := hrewrites.settles
    rw [hgives]
    refine ⟨?_, fun e => by simp, count, hcount, ?_⟩
    · rintro _ _ ⟨⟩
      have hagain : Template.Rewrites lib vars (String.ofList out).toList out false := by
        rw [String.toList_ofList]
        exact hrewrites.settled
      exact ⟨Template.pass_eq_ok_iff.2 hrewrites.settled, rfl, Library.interpolate_of_rewrites hagain⟩
    · rw [Except.map, String.toList_ofList]
      exact hsettles

/-- A value, a verbatim group and a bracket that is never closed: the last two stay. -/
theorem interpolate_settles_mixed_text :
    Template.pass .empty (fun _ => none) "[1+1] [`x`] [3".toList =
        .ok ("2 [`x`] [3".toList, true) ∧
      Template.pass .empty (fun _ => none) "2 [`x`] [3".toList =
        .ok ("2 [`x`] [3".toList, false) ∧
      Library.empty.interpolate (fun _ => none) "[1+1] [`x`] [3" = .ok "2 [`x`] [3" ∧
      Library.empty.interpolate (fun _ => none) "2 [`x`] [3" = .ok "2 [`x`] [3" := by
  have hpass : Template.pass .empty (fun _ => none) "[1+1] [`x`] [3".toList =
      .ok ("2 [`x`] [3".toList, true) := rfl
  obtain ⟨hsettled, hgives, hagain⟩ :=
    (interpolate_settles .empty (fun _ => none) "[1+1] [`x`] [3").1 _ _ hpass
  rw [String.ofList_toList] at hgives hagain
  exact ⟨hpass, hsettled, hgives, hagain⟩

end Formula
end TurtleGraphics
