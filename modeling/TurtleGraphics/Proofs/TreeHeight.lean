import TurtleGraphics.Proofs.OperatorClimbing

/-!
# TurtleGraphics.Proofs.TreeHeight

How high a formula can be that is read with bounded nesting. The bound on nesting counts the brackets
and signs around a place, and the operators in front of it in its own chain. What was read inside a
bracket no longer counts behind it, though it stands at the far left of the chain that goes on there.
So chains add up: with room for `n` levels below it, a formula can be higher by `n` than its first
operand, and that one higher by one than any formula with room for one level less. This makes
`(n + 1) * (n + 2) / 2`, and formulas of that height exist (`height_ofTokens`).
-/

namespace TurtleGraphics
namespace Formula

/-! ## Heights -/

mutual

/-- The number of nodes on the longest way down. -/
def Expr.height : Expr → Nat
  | .num _ => 1
  | .var _ => 1
  | .binary _ l r => 1 + max l.height r.height
  | .unary _ e => 1 + e.height
  | .call _ args => 1 + Expr.heightAll args

def Expr.heightAll : List Expr → Nat
  | [] => 0
  | e :: es => max e.height (Expr.heightAll es)

end

/-- The height of a highest formula that is read with room for `n` levels. -/
def tallest : Nat → Nat
  | 0 => 1
  | n + 1 => tallest n + n + 2

theorem lt_tallest (n : Nat) : n < tallest n := by
  cases n with
  | zero => exact Nat.zero_lt_one
  | succ n =>
    rw [tallest]
    omega

/-! ## No formula is higher -/

namespace Level

variable {check : CallCheck} {n : Nat}

/-- A level that reads no formula higher than it can with room for `n` levels. An operand leaves room
for `n` more operators, and each of them makes it higher by one, because no right operand is as high as
what stands in front of it. -/
structure Low (l : Level) (n : Nat) : Prop where
  primary : ∀ {ts e rest}, l.primary ts = .ok (e, rest) → e.height + n ≤ tallest n
  chain : ∀ {least left ts e rest h}, l.chain least left ts = .ok (e, rest) →
    left.height ≤ h → tallest n ≤ h + n → e.height ≤ h + n

theorem Low.expr {l : Level} (hl : l.Low n) {least : Nat} {ts rest : List Token} {e : Expr}
    (h : l.expr least ts = .ok (e, rest)) : e.height ≤ tallest n := by
  unfold Level.expr at h
  split at h
  · cases h
  · rename_i left rest' hprimary
    have hleft := hl.primary hprimary
    have hchain := @Low.chain l n hl least left rest' e rest (tallest n - n) h (by omega) (by omega)
    omega

theorem heightAll_argumentsWith {expr : List Token → Reading} {h : Nat}
    (hexpr : ∀ {ts e rest}, expr ts = .ok (e, rest) → e.height ≤ h) {fuel : Nat}
    {ts rest : List Token} {args : List Expr}
    (hargs : argumentsWith expr fuel ts = .ok (args, rest)) : Expr.heightAll args ≤ h := by
  induction fuel generalizing ts args with
  | zero => cases hargs
  | succ fuel ih =>
    unfold argumentsWith at hargs
    split at hargs
    · cases hargs
    · rename_i arg tail harg
      split at hargs
      · cases hargs
      · rename_i args' rest' hothers
        cases hargs
        exact Nat.max_le.2 ⟨hexpr harg, ih hothers⟩
    · rename_i arg rest' _ harg
      cases hargs
      exact Nat.max_le.2 ⟨hexpr harg, Nat.zero_le h⟩

theorem heightAll_callArguments {expr : List Token → Reading} {h : Nat}
    (hexpr : ∀ {ts e rest}, expr ts = .ok (e, rest) → e.height ≤ h) {b : Bracket}
    {ts rest : List Token} {args : List Expr}
    (hargs : callArguments expr b ts = .ok (args, rest)) : Expr.heightAll args ≤ h := by
  unfold callArguments at hargs
  split at hargs
  · split at hargs
    · cases hargs
    · cases hargs
      exact Nat.zero_le h
  · split at hargs
    · cases hargs
    · rename_i args' rest' harguments
      split at hargs
      · cases hargs
      · cases hargs
        exact heightAll_argumentsWith hexpr harguments

theorem descend_below {read : Level → Reading} {e : Expr} {rest : List Token}
    (h : descend (below check n) read = .ok (e, rest)) :
    ∃ k, n = k + 1 ∧ read (withRoom check k) = .ok (e, rest) := by
  cases n with
  | zero => cases h
  | succ k => exact ⟨k, rfl, h⟩

section Below

variable (hbelow : ∀ k, n = k + 1 → (withRoom check k).Low k)

include hbelow

/-- What stands inside brackets is low enough for one node above it and `n` operators behind it. -/
theorem height_inside {ts rest : List Token} {e : Expr}
    (h : descend (below check n) (·.expr 0 ts) = .ok (e, rest)) : e.height ≤ tallest n - (n + 1) := by
  obtain ⟨k, rfl, hread⟩ := descend_below h
  have hk := (hbelow k rfl).expr hread
  rw [tallest]
  omega

theorem height_readPrimary {ts rest : List Token} {e : Expr}
    (h : readPrimary check (below check n) ts = .ok (e, rest)) : e.height + n ≤ tallest n := by
  have hroom := lt_tallest n
  unfold readPrimary at h
  split at h
  · cases h
  · cases h
    rw [Expr.height]
    omega
  · split at h
    · cases h
    · rename_i args tail hargs
      have hall := heightAll_callArguments (height_inside hbelow) hargs
      split at h
      · cases h
      · cases h
        rw [Expr.height]
        omega
  · cases h
    rw [Expr.height]
    omega
  · split at h
    · cases h
    · split at h
      · cases h
      · rename_i operand tail hoperand
        cases h
        obtain ⟨k, rfl, hread⟩ := descend_below hoperand
        have hk := (hbelow k rfl).primary hread
        rw [Expr.height, tallest]
        omega
  · split at h
    · cases h
    · rename_i inner tail hinner
      have hinside := height_inside hbelow hinner
      split at h
      · cases h
      · cases h
        omega
  · cases h
  · cases h

theorem height_readChain {least h : Nat} {left e : Expr} {ts rest : List Token}
    (hread : readChain (below check n) least left ts = .ok (e, rest)) (hleft : left.height ≤ h)
    (hh : tallest n ≤ h + n) : e.height ≤ h + n := by
  unfold readChain at hread
  split at hread
  · split at hread
    · cases hread
    · rename_i op hop
      split at hread
      · cases hread
        omega
      · obtain ⟨k, rfl, hdescend⟩ := descend_below hread
        split at hdescend
        · cases hdescend
        · rename_i right tail' hright
          have hk := hbelow k rfl
          have hlow := hk.expr hright
          rw [tallest] at hh
          have hboth : (Expr.binary op left right).height ≤ h + 1 := by
            rw [Expr.height]
            omega
          have hrest := hk.chain hdescend hboth (by omega)
          omega
  · cases hread
    omega

end Below

theorem low_withRoom (check : CallCheck) (n : Nat) : (withRoom check n).Low n := by
  have hstep : ∀ {n}, (∀ k, n = k + 1 → (withRoom check k).Low k) → (withRoom check n).Low n := by
    intro n hbelow
    constructor
    · intro ts e rest h
      rw [primary_withRoom] at h
      exact height_readPrimary hbelow h
    · intro least left ts e rest h hread hleft hh
      rw [chain_withRoom] at hread
      exact height_readChain hbelow hread hleft hh
  induction n with
  | zero => exact hstep fun k hk => absurd hk (Nat.zero_ne_add_one k)
  | succ n ih =>
    refine hstep ?_
    rintro k ⟨⟩
    exact ih

end Level

/-! ## Formulas of that height -/

/-- The tokens of `+ 1`, `n` times. -/
def ones : Nat → List Token
  | 0 => []
  | n + 1 => .op .plus :: .num 1 :: ones n

/-- A formula with 1 added `n` times. -/
def Expr.plusOnes : Nat → Expr → Expr
  | 0, e => e
  | n + 1, e => plusOnes n (.binary .add e (.num 1))

theorem Expr.height_pos (e : Expr) : 0 < e.height := by
  cases e <;> rw [height] <;> omega

theorem Expr.height_plusOnes (n : Nat) (e : Expr) : (plusOnes n e).height = e.height + n := by
  induction n generalizing e with
  | zero => rfl
  | succ n ih =>
    have hpos := e.height_pos
    rw [plusOnes, ih, height, height]
    omega

/-- `f(f(… + 1 …) + 1 …) + 1 …`: on each level as many operators as there is room for. -/
def tower (name : String) : Nat → List Token
  | 0 => [.num 1]
  | n + 1 => .ident name :: .opening .round :: (tower name n ++ .closing .round :: ones (n + 1))

def Expr.tower (name : String) : Nat → Expr
  | 0 => .num 1
  | n + 1 => plusOnes (n + 1) (.call name [tower name n])

theorem Expr.height_tower (name : String) (n : Nat) : (tower name n).height = tallest n := by
  induction n with
  | zero => rfl
  | succ n ih =>
    rw [tower, height_plusOnes, height, heightAll, heightAll, ih, tallest]
    omega

theorem tower_head (name : String) (n : Nat) :
    ∃ t us, tower name n = t :: us ∧ ∀ b, t ≠ .closing b := by
  cases n <;> exact ⟨_, _, rfl, by simp⟩

namespace Level

variable {check : CallCheck}

/-- A chain of sums is read one level further down with each operator. -/
theorem chain_ones {n m : Nat} (hnm : n ≤ m) (e : Expr) {rest : List Token}
    (hrest : FollowedBy (fun op => op.level < 0) rest) :
    (withRoom check m).chain 0 e (ones n ++ rest) = .ok (e.plusOnes n, rest) := by
  induction n generalizing m e with
  | zero => exact chain_of_followedBy hrest
  | succ n ih =>
    obtain ⟨m, rfl⟩ : ∃ k, m = k + 1 := ⟨m - 1, by omega⟩
    have hnext : FollowedBy (fun op => op.level < 8) (ones n ++ rest) := by
      cases n with
      | zero => exact hrest.imp fun op h => absurd h (Nat.not_lt_zero _)
      | succ n => exact .op rfl (by decide) _
    have hright : (withRoom check m).expr 8 (.num 1 :: (ones n ++ rest)) =
        .ok (.num 1, ones n ++ rest) := by
      rw [Level.expr, primary_withRoom]
      exact chain_of_followedBy hnext
    have hop : BinaryOp.add.rightLevel = 8 := rfl
    rw [chain_withRoom]
    simp only [ones, List.cons_append, readChain, Symbol.binary?, Nat.not_lt_zero, if_false, below,
      descend, hop, hright]
    exact ih (by omega) _

theorem expr_tower {name : String} (hname : check name 1 = .ok ()) (n : Nat) {rest : List Token}
    (hrest : FollowedBy (fun op => op.level < 0) rest) :
    (withRoom check n).expr 0 (tower name n ++ rest) = .ok (.tower name n, rest) := by
  induction n generalizing rest with
  | zero =>
    rw [Level.expr, primary_withRoom]
    exact chain_of_followedBy hrest
  | succ n ih =>
    have hinner := @ih (.closing .round :: (ones (n + 1) ++ rest)) (.closing _ _)
    have hargs : callArguments (fun ts => descend (below check (n + 1)) (·.expr 0 ts)) .round
        (tower name n ++ .closing .round :: (ones (n + 1) ++ rest)) =
        .ok ([.tower name n], ones (n + 1) ++ rest) := by
      unfold callArguments
      split
      · rename_i b tail hclosing
        obtain ⟨t, us, hhead, ht⟩ := tower_head name n
        rw [hhead] at hclosing
        cases hclosing
        exact absurd rfl (ht b)
      · simp only [argumentsWith, below, descend, hinner, closeBracket_closing]
    have hprimary : (withRoom check (n + 1)).primary (tower name (n + 1) ++ rest) =
        .ok (.call name [.tower name n], ones (n + 1) ++ rest) := by
      rw [primary_withRoom]
      simp only [tower, List.cons_append, List.append_assoc, readPrimary, hargs, List.length_singleton,
        hname]
    rw [Level.expr, hprimary]
    exact chain_ones (Nat.le_refl _) _ hrest

end Level

theorem ofTokens_of_expr {check : CallCheck} {ts : List Token} {e : Expr} (hts : ts ≠ [])
    (h : (Level.withRoom check (maxNesting - 1)).expr 0 ts = .ok (e, [])) :
    Expr.ofTokens check ts = .ok e := by
  unfold Expr.ofTokens
  split
  · exact absurd rfl hts
  · rw [h]

/-! ## The bound -/

theorem height_le_tallest {check : CallCheck} {ts : List Token} {e : Expr}
    (h : Expr.ofTokens check ts = .ok e) : e.height ≤ tallest (maxNesting - 1) := by
  unfold Expr.ofTokens at h
  split at h
  · cases h
  · split at h
    · cases h
    · rename_i e' hexpr
      cases h
      exact (Level.low_withRoom check _).expr hexpr
    · cases h
    · cases h

theorem ofTokens_tower {check : CallCheck} {name : String} (hname : check name 1 = .ok ()) :
    Expr.ofTokens check (tower name (maxNesting - 1)) = .ok (.tower name (maxNesting - 1)) := by
  obtain ⟨t, us, hhead, -⟩ := tower_head name (maxNesting - 1)
  have hread := @Level.expr_tower check name hname (maxNesting - 1) [] .nil
  rw [List.append_nil] at hread
  exact ofTokens_of_expr (by simp [hhead]) hread

/-- Whatever function is being defined, there is one with one argument besides it. -/
theorem Library.exists_checkCall_one (lib : Library) (own : Option (String × Nat)) :
    ∃ name, lib.checkCall own name 1 = .ok () := by
  rcases own with _ | ⟨f, k⟩
  · exact ⟨"abs", checkCall_eq_ok_iff.2 rfl⟩
  · by_cases hf : f = "abs"
    · subst hf
      exact ⟨"sqrt", checkCall_eq_ok_iff.2 rfl⟩
    · have habs : lib.arityDefining? (some (f, k)) "abs" = some 1 := if_neg hf
      exact ⟨"abs", checkCall_eq_ok_iff.2 habs⟩

/-- With 64 levels of nesting no formula is higher than 2080, and over every library there is a formula
as high as that, in the body of any function. -/
theorem height_ofTokens (lib : Library) (own : Option (String × Nat)) :
    (∀ ts e, Expr.ofTokens (lib.checkCall own) ts = .ok e →
      e.height ≤ maxNesting * (maxNesting + 1) / 2) ∧
    ∃ ts e, Expr.ofTokens (lib.checkCall own) ts = .ok e ∧
      e.height = maxNesting * (maxNesting + 1) / 2 := by
  have hbound : tallest (maxNesting - 1) = maxNesting * (maxNesting + 1) / 2 := by decide
  rw [← hbound]
  constructor
  · intro ts e h
    exact height_le_tallest h
  · obtain ⟨name, hname⟩ := lib.exists_checkCall_one own
    exact ⟨_, _, ofTokens_tower hname, Expr.height_tower name _⟩

/-- A sum of 33 ones in brackets, with 1 added 32 times. -/
def sumOfSum : List Token :=
  .opening .round :: .num 1 :: (ones 32 ++ .closing .round :: ones 32)

theorem ofTokens_sumOfSum (check : CallCheck) :
    Expr.ofTokens check sumOfSum = .ok (.plusOnes 32 (.plusOnes 32 (.num 1))) := by
  refine ofTokens_of_expr (by simp [sumOfSum]) ?_
  have hinner : (Level.withRoom check 62).expr 0 (.num 1 :: (ones 32 ++ .closing .round :: ones 32)) =
      .ok (.plusOnes 32 (.num 1), .closing .round :: ones 32) := by
    rw [Level.expr, Level.primary_withRoom]
    exact Level.chain_ones (by decide) _ (.closing _ _)
  have houter := @Level.chain_ones check 32 63 (by decide) (.plusOnes 32 (.num 1)) [] .nil
  rw [List.append_nil] at houter
  change (Level.withRoom check 63).expr 0 sumOfSum = _
  rw [Level.expr, Level.primary_withRoom]
  simp only [sumOfSum, Level.readPrimary, Level.below, Level.descend, hinner,
    Level.closeBracket_closing, houter]

theorem height_sumOfSum :
    Expr.ofTokens (Library.empty.checkCall none) sumOfSum =
        .ok (.plusOnes 32 (.plusOnes 32 (.num 1))) ∧
      (Expr.plusOnes 32 (.plusOnes 32 (.num 1))).height ≤ maxNesting * (maxNesting + 1) / 2 :=
  have h := ofTokens_sumOfSum (Library.empty.checkCall none)
  ⟨h, (height_ofTokens Library.empty none).1 _ _ h⟩

/-- The nesting of a formula does not bound its height. -/
theorem nesting_lt_height_sumOfSum :
    ∃ e, Expr.ofTokens (Library.empty.checkCall none) sumOfSum = .ok e ∧ maxNesting < e.height :=
  ⟨_, ofTokens_sumOfSum _, by rw [Expr.height_plusOnes, Expr.height_plusOnes]; decide⟩

end Formula
end TurtleGraphics
