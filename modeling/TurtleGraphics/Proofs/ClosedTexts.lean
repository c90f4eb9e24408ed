import TurtleGraphics.Proofs.Interpolation

/-!
# TurtleGraphics.Proofs.ClosedTexts

Interpolation of one text behind another. A text is `Closed` if a pass meets no opening bracket in it
that is never closed; a closing bracket too many does no harm. A counter of open brackets decides this
(`closed_iff`). Nothing behind a closed text can take part in one of its groups, so that a pass over both
texts is a pass over each (`pass_append`), and this carries over to interpolation.

Every text is a closed one with at most one open tail, which is kept as it is. So if a text fails, it fails
in its closed part, and then it fails whatever stands behind it.
-/

namespace TurtleGraphics
namespace Formula
namespace Template

/-! ## Closed texts -/

/-- A pass over the text meets no opening bracket that is never closed. -/
inductive Closed : List Char → Prop where
  | nil : Closed []
  | char {c : Char} {cs : List Char} : c ≠ '[' → Closed cs → Closed (c :: cs)
  | group {inner cs : List Char} : IsContent inner → Closed cs →
      Closed ('[' :: (inner ++ ']' :: cs))

/-- A tail that starts with a bracket which is never closed. -/
def IsOpenTail (cs : List Char) : Prop :=
  ∃ rest, cs = '[' :: rest ∧ splitGroup? 0 rest = none

/-- Every text is a closed one, with an open tail behind it or none. -/
theorem exists_closed_append (cs : List Char) :
    ∃ front tail, cs = front ++ tail ∧ Closed front ∧ (tail = [] ∨ IsOpenTail tail) := by
  -- a group takes several characters, so the induction is on the length of the text
  induction hn : cs.length using Nat.strongRecOn generalizing cs with
  | _ n ih =>
    cases cs with
    | nil => exact ⟨[], [], rfl, .nil, .inl rfl⟩
    | cons c cs =>
      rw [List.length_cons] at hn
      by_cases hopen : c = '['
      · subst hopen
        cases hsplit : splitGroup? 0 cs with
        | none => exact ⟨[], '[' :: cs, rfl, .nil, .inr ⟨cs, rfl, hsplit⟩⟩
        | some found =>
          obtain ⟨inner, rest⟩ := found
          have hcontent := isContent_of_splitGroup? hsplit
          obtain ⟨rfl, -⟩ := splitGroup?_eq_some hsplit
          have hshorter : rest.length < n := by
            rw [← hn, List.length_append, List.length_cons]
            omega
          obtain ⟨front, tail, rfl, hfront, htail⟩ := ih _ hshorter rest rfl
          exact ⟨'[' :: (inner ++ ']' :: front), tail, by simp, .group hcontent hfront, htail⟩
      · obtain ⟨front, tail, rfl, hfront, htail⟩ := ih cs.length (by omega) cs rfl
        exact ⟨c :: front, tail, rfl, .char hopen hfront, htail⟩

/-! ## The counter of open brackets -/

/-- The number of brackets that are open behind a character, with `depth` open in front of it. One that
closes nothing does not count. -/
def openBehind (depth : Nat) (c : Char) : Nat :=
  if c == '[' then depth + 1 else if c == ']' then depth - 1 else depth

def openAfter (depth : Nat) (cs : List Char) : Nat :=
  cs.foldl openBehind depth

theorem openAfter_cons (depth : Nat) (c : Char) (cs : List Char) :
    openAfter depth (c :: cs) = openAfter (openBehind depth c) cs :=
  List.foldl_cons ..

theorem splitGroup?_inside {depth : Nat} {c : Char} (h : ¬(c == ']' && depth == 0) = true)
    (cs : List Char) :
    splitGroup? depth (c :: cs) =
      match splitGroup? (openBehind depth c) cs with
      | none => none
      | some (inner, rest) => some (c :: inner, rest) := by
  rw [splitGroup?, if_neg h]
  rfl

/-- The search for the end of a group and the counter agree: no end is found only if brackets stay open,
and behind an end that is found the count starts anew. -/
theorem openAfter_splitGroup? (depth : Nat) (cs : List Char) :
    match splitGroup? depth cs with
    | none => 0 < openAfter (depth + 1) cs
    | some (_, rest) => openAfter (depth + 1) cs = openAfter 0 rest := by
  induction cs generalizing depth with
  | nil => exact Nat.succ_pos depth
  | cons c cs ih =>
    by_cases hclose : (c == ']' && depth == 0) = true
    · simp only [Bool.and_eq_true, beq_iff_eq] at hclose
      obtain ⟨rfl, rfl⟩ := hclose
      rfl
    · -- the counter is ahead of the search by the bracket that opened the group
      have hcount : openBehind (depth + 1) c = openBehind depth c + 1 := by grind [openBehind]
      have ih := ih (openBehind depth c)
      rw [splitGroup?_inside hclose, openAfter_cons, hcount]
      cases hsplit : splitGroup? (openBehind depth c) cs with
      | none =>
        rw [hsplit] at ih
        exact ih
      | some found =>
        rw [hsplit] at ih
        exact ih

theorem Closed.openAfter_eq {cs : List Char} (h : Closed cs) : openAfter 0 cs = 0 := by
  induction h with
  | nil => rfl
  | @char c cs hc _ ih =>
    have hcount : openBehind 0 c = 0 := by grind [openBehind]
    rw [openAfter_cons, hcount]
    exact ih
  | @group inner cs hcontent _ ih =>
    have hcount := openAfter_splitGroup? 0 (inner ++ ']' :: cs)
    rw [hcontent cs] at hcount
    exact hcount.trans ih

theorem closed_iff {cs : List Char} : Closed cs ↔ openAfter 0 cs = 0 := by
  refine ⟨Closed.openAfter_eq, fun h => ?_⟩
  obtain ⟨front, tail, rfl, hfront, rfl | ⟨rest, rfl, hsplit⟩⟩ := exists_closed_append cs
  · rwa [List.append_nil]
  · have hcount := openAfter_splitGroup? 0 rest
    rw [hsplit] at hcount
    have hback : openAfter 0 (front ++ '[' :: rest) = openAfter 1 rest := by
      rw [openAfter, List.foldl_append]
      exact congrArg (fun depth => openAfter depth ('[' :: rest)) hfront.openAfter_eq
    rw [hback] at h
    exact absurd h (Nat.ne_of_gt hcount)

instance (cs : List Char) : Decidable (Closed cs) :=
  decidable_of_iff _ closed_iff.symm

/-! ## Passes over two texts -/

section

variable {lib : Library} {vars : Scope}

/-- What passes over two texts come to, one text behind the other. -/
def joined (r s : Except Error (List Char × Bool)) : Except Error (List Char × Bool) :=
  match r with
  | .error e => .error e
  | .ok (out, replaced) =>
    match s with
    | .error e => .error e
    | .ok (out', replaced') => .ok (out ++ out', replaced || replaced')

theorem joined_assoc (r s t : Except Error (List Char × Bool)) :
    joined (joined r s) t = joined r (joined s t) := by
  cases r with
  | error e => rfl
  | ok out =>
    cases s with
    | error e => rfl
    | ok out' => cases t <;> simp [joined, Bool.or_assoc]

/-- What a pass makes of a group alone. -/
def groupResult (lib : Library) (vars : Scope) (inner : List Char) : Except Error (List Char × Bool) :=
  if isVerbatim inner then .ok ('[' :: (inner ++ [']']), false)
  else (valueText lib vars inner).map fun value => (value, true)

theorem pass_char {c : Char} (hc : c ≠ '[') (cs : List Char) :
    pass lib vars (c :: cs) = joined (.ok ([c], false)) (pass lib vars cs) := by
  rw [pass, passFrom, if_neg (by simpa using hc), pass]
  cases passFrom lib vars 0 cs <;> simp [joined]

theorem pass_group {inner : List Char} (hcontent : IsContent inner) (cs : List Char) :
    pass lib vars ('[' :: (inner ++ ']' :: cs)) =
      joined (groupResult lib vars inner) (pass lib vars cs) := by
  rw [pass, passFrom, if_pos (beq_self_eq_true _), hcontent]
  dsimp only
  rw [passFrom_group, groupResult, pass]
  split
  · cases passFrom lib vars 0 cs <;> simp [joined]
  · cases valueText lib vars inner with
    | error e => rfl
    | ok value => cases passFrom lib vars 0 cs <;> simp [joined, Except.map]

/-- A pass over a closed text and what is behind it is a pass over each. -/
theorem pass_append {a : List Char} (ha : Closed a) (b : List Char) :
    pass lib vars (a ++ b) = joined (pass lib vars a) (pass lib vars b) := by
  induction ha with
  | nil =>
    have hnil : pass lib vars [] = .ok ([], false) := rfl
    rw [hnil, List.nil_append]
    cases pass lib vars b <;> simp [joined]
  | char hc _ ih => rw [List.cons_append, pass_char hc, pass_char hc, ih, joined_assoc]
  | group hcontent _ ih =>
    rw [List.cons_append, List.append_assoc, List.cons_append, pass_group hcontent,
      pass_group hcontent, ih, joined_assoc]

/-- A text that fails does so whatever is behind it. -/
theorem pass_append_of_error {a : List Char} {e : Error} (h : pass lib vars a = .error e)
    (b : List Char) : pass lib vars (a ++ b) = .error e := by
  obtain ⟨front, tail, rfl, hfront, htail⟩ := exists_closed_append a
  have hkept : pass lib vars tail = .ok (tail, false) := by
    rcases htail with rfl | ⟨rest, rfl, hsplit⟩
    · rfl
    · exact pass_eq_ok_iff.2 (.unclosed hsplit)
  -- the open tail does not fail, so the closed part does
  rw [pass_append hfront, hkept] at h
  have hfails : pass lib vars front = .error e := by
    cases hpass : pass lib vars front with
    | error e' =>
      rw [hpass] at h
      exact h
    | ok result =>
      rw [hpass] at h
      cases h
  rw [List.append_assoc, pass_append hfront, hfails]
  rfl

end

end Template

/-! ## Interpolation -/

/-- Interpolation gives what one pass does. -/
theorem Library.interpolate_eq_pass (lib : Library) (vars : Scope) (text : String) :
    lib.interpolate vars text =
      (Template.pass lib vars text.toList).map fun result => String.ofList result.1 := by
  cases hpass : Template.pass lib vars text.toList with
  | error e => rw [interpolate, Template.passes_of_error hpass, Except.map]
  | ok result => exact interpolate_of_rewrites (Template.pass_eq_ok_iff.1 hpass)

/-- Interpolation distributes over texts that stand one behind the other. If the first one fails, both
together fail with its error. If it succeeds and has no bracket that is never closed, both together give
its result with that of the second behind it, or fail with the error of the second. -/
theorem interpolate_append (lib : Library) (vars : Scope) (a b : String) :
    (∀ e, lib.interpolate vars a = .error e → lib.interpolate vars (a ++ b) = .error e) ∧
    ∀ x, Template.Closed a.toList → lib.interpolate vars a = .ok x →
      (∀ y, lib.interpolate vars b = .ok y → lib.interpolate vars (a ++ b) = .ok (x ++ y)) ∧
      ∀ e, lib.interpolate vars b = .error e → lib.interpolate vars (a ++ b) = .error e := by
  simp only [Library.interpolate_eq_pass, String.toList_append]
  cases ha : Template.pass lib vars a.toList with
  | error e =>
    rw [Template.pass_append_of_error ha]
    refine ⟨fun e' h => h, fun x _ h => ?_⟩
    cases h
  | ok result =>
    refine ⟨fun e h => ?_, fun x hclosed h => ?_⟩
    · cases h
    · cases h
      rw [Template.pass_append hclosed, ha]
      cases Template.pass lib vars b.toList with
      | error e =>
        refine ⟨fun y h => ?_, fun e' h => h⟩
        cases h
      | ok result' =>
        refine ⟨fun y h => ?_, fun e h => ?_⟩
        · cases h
          simp [Except.map, Template.joined]
        · cases h

/-- A value, a stray bracket and a verbatim group, in front of a value and a bracket that is never closed. -/
theorem interpolate_append_mixed_texts :
    Template.Closed "[1+1]] [`x`]".toList ∧
      Library.empty.interpolate noVariables "[1+1]] [`x`]" = .ok "2] [`x`]" ∧
      Library.empty.interpolate noVariables "-[3] [4" = .ok "-3 [4" ∧
      Library.empty.interpolate noVariables "[1+1]] [`x`]-[3] [4" = .ok "2] [`x`]-3 [4" := by
  have hclosed : Template.Closed "[1+1]] [`x`]".toList := by decide
  have hfirst : Library.empty.interpolate noVariables "[1+1]] [`x`]" = .ok "2] [`x`]" := rfl
  have hsecond : Library.empty.interpolate noVariables "-[3] [4" = .ok "-3 [4" := rfl
  exact ⟨hclosed, hfirst, hsecond, ((interpolate_append _ _ _ _).2 _ hclosed hfirst).1 _ hsecond⟩

end Formula
end TurtleGraphics
