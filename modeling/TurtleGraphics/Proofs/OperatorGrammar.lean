import TurtleGraphics.Formula.Library

/-!
# TurtleGraphics.Proofs.OperatorGrammar

Formulas read by climbing binding levels are those of a grammar with one rule set for each level.

`Grammar.Expression n ts e` says that the tokens `ts` spell the tree `e` with operators outside brackets
that bind at least at level `n`; operators of one level group to the left, powers to the right. The
reader loops over the operators behind an operand. Two facts about its loop carry the proofs: whatever
it has read so far can stand to the left of the operator that comes next (`Ready`), and it stops in
front of an operator that binds too loosely (`Stops`). So what is read is derived (`sound_withRoom`).
Conversely a derivation leads the loop from operator to operator, unless levels of nesting run out
(`reaches_of_expression`, in `OperatorClimbing`), which takes at least as many tokens as there are levels.
-/

namespace TurtleGraphics
namespace Formula

/-! ## The grammar -/

namespace Grammar

/-- The operators in front of an operand. -/
def signs : List (Symbol × UnaryOp) :=
  [(.plus, .plus), (.minus, .neg), (.bang, .not)]

/-- The operators between two operands, by level. -/
def infixes : Nat → List (Symbol × BinaryOp)
  | 1 => [(.doubleBar, .or)]
  | 2 => [(.doubleAmp, .and)]
  | 3 => [(.bar, .bitOr)]
  | 4 => [(.amp, .bitAnd)]
  | 5 => [(.doubleEqual, .eq), (.tripleEqual, .eq), (.bangEqual, .notEq), (.bangDoubleEqual, .notEq)]
  | 6 => [(.less, .lt), (.lessEqual, .ltEq), (.greater, .gt), (.greaterEqual, .gtEq)]
  | 7 => [(.plus, .add), (.minus, .sub)]
  | 8 => [(.star, .mul), (.slash, .div), (.doubleSlash, .intDiv)]
  | 9 => [(.caret, .pow)]
  | _ => []

mutual

/-- No rule puts an opening bracket behind an operand, so a name in front of one is always that of a
call. -/
inductive Operand : List Token → Expr → Prop where
  | num (value : Float) : Operand [.num value] (.num value)
  | var (name : String) : Operand [.ident name] (.var name)
  | sign {symbol : Symbol} {op : UnaryOp} {ts : List Token} {e : Expr} :
      (symbol, op) ∈ signs → Operand ts e → Operand (.op symbol :: ts) (.unary op e)
  | bracket (b : Bracket) {ts : List Token} {e : Expr} :
      Expression 0 ts e → Operand (.opening b :: (ts ++ [.closing b])) e
  | callEmpty (name : String) (b : Bracket) :
      Operand [.ident name, .opening b, .closing b] (.call name [])
  | call (name : String) (b : Bracket) {ts : List Token} {args : List Expr} :
      Arguments ts args →
      Operand (.ident name :: .opening b :: (ts ++ [.closing b])) (.call name args)

/-- Formulas by level. Level 0 has no operators of its own and takes in all formulas. -/
inductive Expression : Nat → List Token → Expr → Prop where
  | operand {ts : List Token} {e : Expr} : Operand ts e → Expression 9 ts e
  | raise {n : Nat} {ts : List Token} {e : Expr} : Expression (n + 1) ts e → Expression n ts e
  | power {ls rs : List Token} {l r : Expr} {symbol : Symbol} {op : BinaryOp} :
      (symbol, op) ∈ infixes 9 → Operand ls l → Expression 9 rs r →
      Expression 9 (ls ++ .op symbol :: rs) (.binary op l r)
  | binary {n : Nat} {ls rs : List Token} {l r : Expr} {symbol : Symbol} {op : BinaryOp} :
      n < 9 → (symbol, op) ∈ infixes n → Expression n ls l → Expression (n + 1) rs r →
      Expression n (ls ++ .op symbol :: rs) (.binary op l r)

/-- One or more formulas with commas between them. -/
inductive Arguments : List Token → List Expr → Prop where
  | last {ts : List Token} {e : Expr} : Expression 0 ts e → Arguments ts [e]
  | cons {ts us : List Token} {e : Expr} {es : List Expr} :
      Expression 0 ts e → Arguments us es → Arguments (ts ++ .comma :: us) (e :: es)

end

theorem mem_signs_iff {symbol : Symbol} {op : UnaryOp} :
    (symbol, op) ∈ signs ↔ symbol.unary? = some op := by
  cases symbol <;> cases op <;> decide

theorem mem_infixes_of_binary? {symbol : Symbol} {op : BinaryOp} (h : symbol.binary? = some op) :
    (symbol, op) ∈ infixes op.level := by
  cases symbol <;> cases h <;> decide

theorem binary?_of_mem_infixes {n : Nat} {symbol : Symbol} {op : BinaryOp}
    (h : (symbol, op) ∈ infixes n) : symbol.binary? = some op ∧ op.level = n := by
  unfold infixes at h
  split at h <;> simp at h <;> grind [Symbol.binary?, BinaryOp.level]

theorem Expression.lower {m n : Nat} {ts : List Token} {e : Expr} (h : Expression n ts e)
    (hmn : m ≤ n) : Expression m ts e := by
  induction hmn with
  | refl => exact h
  | step _ ih => exact ih h.raise

end Grammar

/-! ## Calls in a formula -/

mutual

/-- The functions called in a formula, each with the number of arguments it is given. -/
def Expr.calls : Expr → List (String × Nat)
  | .num _ => []
  | .var _ => []
  | .binary _ l r => l.calls ++ r.calls
  | .unary _ e => e.calls
  | .call name args => Expr.callsAll args ++ [(name, args.length)]

def Expr.callsAll : List Expr → List (String × Nat)
  | [] => []
  | e :: es => e.calls ++ Expr.callsAll es

end

/-- All calls of a formula pass the check. -/
def Expr.Passes (check : CallCheck) (e : Expr) : Prop :=
  ∀ call ∈ e.calls, check call.1 call.2 = .ok ()

def Expr.PassAll (check : CallCheck) (es : List Expr) : Prop :=
  ∀ call ∈ Expr.callsAll es, check call.1 call.2 = .ok ()

namespace Expr

variable {check : CallCheck}

theorem passes_binary {op : BinaryOp} {l r : Expr} :
    (Expr.binary op l r).Passes check ↔ l.Passes check ∧ r.Passes check := by
  rw [Passes, calls, List.forall_mem_append]
  rfl

theorem passes_call {name : String} {args : List Expr} :
    (Expr.call name args).Passes check ↔ PassAll check args ∧ check name args.length = .ok () := by
  rw [Passes, calls, List.forall_mem_append, List.forall_mem_singleton]
  rfl

theorem passAll_cons {e : Expr} {es : List Expr} :
    PassAll check (e :: es) ↔ e.Passes check ∧ PassAll check es := by
  rw [PassAll, callsAll, List.forall_mem_append]
  rfl

end Expr

/-! ## What is read is derived -/

/-- The tokens spell an operand that can stand to the left of an operator. -/
def Grammar.LeftOf (op : BinaryOp) (ts : List Token) (e : Expr) : Prop :=
  if op = .pow then Operand ts e else Expression op.level ts e

/-- The operators in front of which the loop stops. -/
def Stops (least : Nat) (ts : List Token) : Prop :=
  ∀ symbol rest op, ts = .op symbol :: rest → symbol.binary? = some op → op.level < least

/-- The tokens read so far spell `left`, which can be continued by what comes next. -/
structure Ready (check : CallCheck) (least : Nat) (front : List Token) (left : Expr)
    (ts : List Token) : Prop where
  spelled : Grammar.Expression least front left
  passes : left.Passes check
  next : ∀ symbol rest op, ts = .op symbol :: rest → symbol.binary? = some op → least ≤ op.level →
    Grammar.LeftOf op front left

/-- What a level reads is derived from the tokens it takes away. -/
structure Level.Sound (check : CallCheck) (l : Level) : Prop where
  primary : ∀ {ts e rest}, l.primary ts = .ok (e, rest) →
    ∃ used, ts = used ++ rest ∧ Grammar.Operand used e ∧ e.Passes check
  chain : ∀ {least left ts e rest front}, l.chain least left ts = .ok (e, rest) →
    Ready check least front left ts →
    ∃ used, ts = used ++ rest ∧ Grammar.Expression least (front ++ used) e ∧ e.Passes check ∧
      Stops least rest

theorem BinaryOp.rightLevel_le (op : BinaryOp) : op.rightLevel ≤ 9 := by
  cases op <;> decide

theorem BinaryOp.rightLevel_of_ne {op : BinaryOp} (h : op ≠ .pow) : op.rightLevel = op.level + 1 := by
  simp [rightLevel, groupsRight, h]

theorem BinaryOp.eq_pow_of_level {op : BinaryOp} (h : op.level = 9) : op = .pow := by
  revert h
  cases op <;> decide

/-- The operators that can stand behind an expression of a level: an operand inside it takes neither
those of that level nor powers. -/
def Looser (n : Nat) (op : BinaryOp) : Prop :=
  op.level ≤ n ∧ op ≠ .pow

theorem BinaryOp.lt_rightLevel_iff {op next : BinaryOp} :
    next.level < op.rightLevel ↔ Looser op.level next := by
  unfold Looser
  cases op <;> cases next <;> decide

theorem Grammar.expression_binary {symbol : Symbol} {op : BinaryOp} {ls rs : List Token}
    {l r : Expr} (hop : symbol.binary? = some op) (hl : LeftOf op ls l)
    (hr : Expression op.rightLevel rs r) :
    Expression op.level (ls ++ .op symbol :: rs) (.binary op l r) := by
  have hmem := mem_infixes_of_binary? hop
  by_cases hpow : op = .pow
  · subst hpow
    exact .power hmem hl hr
  · rw [LeftOf, if_neg hpow] at hl
    have hright := BinaryOp.rightLevel_of_ne hpow
    have hlevel : op.level < 9 := by
      have := op.rightLevel_le
      omega
    rw [hright] at hr
    exact .binary hlevel hmem hl hr

namespace Level

variable {check : CallCheck}

theorem Sound.expr {l : Level} (hl : l.Sound check) {least : Nat} (hleast : least ≤ 9)
    {ts rest : List Token} {e : Expr} (h : l.expr least ts = .ok (e, rest)) :
    ∃ used, ts = used ++ rest ∧ Grammar.Expression least used e ∧ e.Passes check ∧
      Stops least rest := by
  unfold Level.expr at h
  split at h
  · cases h
  · rename_i left rest' hprimary
    obtain ⟨front, rfl, hfront, hpasses⟩ := hl.primary hprimary
    have hready : Ready check least front left rest' := by
      refine ⟨(Grammar.Expression.operand hfront).lower hleast, hpasses, ?_⟩
      intro symbol tail op _ hop _
      unfold Grammar.LeftOf
      split
      · exact hfront
      · exact (Grammar.Expression.operand hfront).lower (by cases op <;> decide)
    obtain ⟨used, rfl, he, hpasses, hstops⟩ := hl.chain h hready
    exact ⟨front ++ used, by simp, he, hpasses, hstops⟩

theorem closeBracket_eq_ok {b : Bracket} {ts rest : List Token} (h : closeBracket b ts = .ok rest) :
    ts = .closing b :: rest := by
  unfold closeBracket at h
  split at h
  · cases h
  · split at h
    · rename_i hb
      cases h
      rw [hb]
    · cases h
  · cases h

theorem sound_argumentsWith {expr : List Token → Reading}
    (hexpr : ∀ {ts e rest}, expr ts = .ok (e, rest) →
      ∃ used, ts = used ++ rest ∧ Grammar.Expression 0 used e ∧ e.Passes check)
    {fuel : Nat} {ts rest : List Token} {args : List Expr}
    (h : argumentsWith expr fuel ts = .ok (args, rest)) :
    ∃ used, ts = used ++ rest ∧ Grammar.Arguments used args ∧ Expr.PassAll check args := by
  induction fuel generalizing ts args with
  | zero => cases h
  | succ fuel ih =>
    unfold argumentsWith at h
    split at h
    · cases h
    · rename_i arg tail harg
      obtain ⟨used, rfl, hspelled, hpasses⟩ := hexpr harg
      split at h
      · cases h
      · rename_i args' rest' hargs
        cases h
        obtain ⟨used', rfl, hspelled', hpasses'⟩ := ih hargs
        exact ⟨used ++ .comma :: used', by simp, .cons hspelled hspelled',
          Expr.passAll_cons.2 ⟨hpasses, hpasses'⟩⟩
    · rename_i arg rest' _ harg
      cases h
      obtain ⟨used, rfl, hspelled, hpasses⟩ := hexpr harg
      exact ⟨used, rfl, .last hspelled, Expr.passAll_cons.2 ⟨hpasses, by simp [Expr.PassAll, Expr.callsAll]⟩⟩

section Below

variable {below : Option Level} (hbelow : ∀ l, below = some l → l.Sound check)

include hbelow

theorem sound_descend_expr {ts rest : List Token} {e : Expr}
    (h : descend below (·.expr 0 ts) = .ok (e, rest)) :
    ∃ used, ts = used ++ rest ∧ Grammar.Expression 0 used e ∧ e.Passes check := by
  unfold descend at h
  split at h
  · cases h
  · rename_i l
    obtain ⟨used, hts, hspelled, hpasses, -⟩ := (hbelow l rfl).expr (Nat.zero_le 9) h
    exact ⟨used, hts, hspelled, hpasses⟩

theorem sound_callArguments (name : String) {b : Bracket} {ts rest : List Token} {args : List Expr}
    (h : callArguments (fun ts => descend below (·.expr 0 ts)) b ts = .ok (args, rest)) :
    ∃ used, .ident name :: .opening b :: ts = used ++ rest ∧
      Grammar.Operand used (.call name args) ∧ Expr.PassAll check args := by
  unfold callArguments at h
  split at h
  · split at h
    · cases h
    · rename_i rest' hclose
      cases h
      rw [closeBracket_eq_ok hclose]
      exact ⟨[.ident name, .opening b, .closing b], rfl, .callEmpty name b,
        by simp [Expr.PassAll, Expr.callsAll]⟩
  · split at h
    · cases h
    · rename_i args' rest' hargs
      split at h
      · cases h
      · rename_i rest'' hclose
        cases h
        obtain ⟨used, rfl, hspelled, hpasses⟩ := sound_argumentsWith (sound_descend_expr hbelow) hargs
        rw [closeBracket_eq_ok hclose]
        exact ⟨.ident name :: .opening b :: (used ++ [.closing b]), by simp, .call name b hspelled,
          hpasses⟩

theorem sound_readPrimary {ts rest : List Token} {e : Expr}
    (h : readPrimary check below ts = .ok (e, rest)) :
    ∃ used, ts = used ++ rest ∧ Grammar.Operand used e ∧ e.Passes check := by
  unfold readPrimary at h
  split at h
  · cases h
  · rename_i value tail
    cases h
    exact ⟨[.num value], rfl, .num value, by simp [Expr.Passes, Expr.calls]⟩
  · rename_i name b tail
    split at h
    · cases h
    · rename_i args tail' hargs
      obtain ⟨used, hts, hspelled, hpasses⟩ := sound_callArguments hbelow name hargs
      split at h
      · cases h
      · rename_i hcheck
        cases h
        exact ⟨used, hts, hspelled, Expr.passes_call.2 ⟨hpasses, hcheck⟩⟩
  · rename_i name tail _
    cases h
    exact ⟨[.ident name], rfl, .var name, by simp [Expr.Passes, Expr.calls]⟩
  · rename_i symbol tail
    split at h
    · cases h
    · rename_i op hop
      split at h
      · cases h
      · rename_i operand tail' hoperand
        cases h
        unfold descend at hoperand
        split at hoperand
        · cases hoperand
        · rename_i l
          obtain ⟨used, rfl, hspelled, hpasses⟩ := (hbelow l rfl).primary hoperand
          exact ⟨.op symbol :: used, rfl, .sign (Grammar.mem_signs_iff.2 hop) hspelled, hpasses⟩
  · rename_i b tail
    split at h
    · cases h
    · rename_i inner tail' hinner
      obtain ⟨used, rfl, hspelled, hpasses⟩ := sound_descend_expr hbelow hinner
      split at h
      · cases h
      · rename_i tail'' hclose
        cases h
        rw [closeBracket_eq_ok hclose]
        exact ⟨.opening b :: (used ++ [.closing b]), by simp, .bracket b hspelled, hpasses⟩
  · cases h
  · cases h

theorem sound_readChain {least : Nat} {left e : Expr} {ts rest front : List Token}
    (h : readChain below least left ts = .ok (e, rest)) (hready : Ready check least front left ts) :
    ∃ used, ts = used ++ rest ∧ Grammar.Expression least (front ++ used) e ∧ e.Passes check ∧
      Stops least rest := by
  unfold readChain at h
  split at h
  · rename_i symbol tail
    split at h
    · cases h
    · rename_i op hop
      split at h
      · -- the operator binds too loosely
        rename_i hlevel
        cases h
        refine ⟨[], rfl, by simpa using hready.spelled, hready.passes, ?_⟩
        rintro _ _ op' ⟨⟩ hop'
        rw [hop] at hop'
        cases hop'
        exact hlevel
      · rename_i hlevel
        have hleast : least ≤ op.level := Nat.le_of_not_lt hlevel
        unfold descend at h
        split at h
        · cases h
        · rename_i l
          have hl := hbelow l rfl
          dsimp only at h
          split at h
          · cases h
          · rename_i right tail' hright
            obtain ⟨used, rfl, hspelled, hpasses, hstops⟩ := hl.expr op.rightLevel_le hright
            have hleft := hready.next symbol _ op rfl hop hleast
            have hboth := Grammar.expression_binary hop hleft hspelled
            -- the right operand has taken all that binds tighter, so the next operator can have the
            -- whole as its left operand
            have hnext : Ready check least (front ++ .op symbol :: used) (.binary op left right)
                tail' := by
              refine ⟨hboth.lower hleast, Expr.passes_binary.2 ⟨hready.passes, hpasses⟩, ?_⟩
              intro symbol' rest' op' hts hop' _
              obtain ⟨hle, hpow⟩ := BinaryOp.lt_rightLevel_iff.1 (hstops symbol' rest' op' hts hop')
              rw [Grammar.LeftOf, if_neg hpow]
              exact hboth.lower hle
            obtain ⟨used', rfl, hspelled', hpasses', hstops'⟩ := hl.chain h hnext
            exact ⟨.op symbol :: (used ++ used'), by simp, by simpa using hspelled', hpasses', hstops'⟩
  · rename_i hop
    cases h
    refine ⟨[], rfl, by simpa using hready.spelled, hready.passes, ?_⟩
    intro symbol rest' op hts _
    exact absurd hts (hop symbol rest')

theorem sound_next : (next check below).Sound check :=
  ⟨sound_readPrimary hbelow, sound_readChain hbelow⟩

end Below

theorem sound_withRoom (check : CallCheck) (n : Nat) : (withRoom check n).Sound check := by
  induction n with
  | zero => exact sound_next (by simp)
  | succ n ih =>
    rw [withRoom_succ]
    refine sound_next ?_
    rintro l ⟨⟩
    exact ih

end Level

theorem expression_of_ofTokens {check : CallCheck} {ts : List Token} {e : Expr}
    (h : Expr.ofTokens check ts = .ok e) : Grammar.Expression 0 ts e ∧ e.Passes check := by
  unfold Expr.ofTokens at h
  split at h
  · cases h
  · split at h
    · cases h
    · rename_i e' hexpr
      cases h
      obtain ⟨used, rfl, hspelled, hpasses, -⟩ := (Level.sound_withRoom check _).expr (Nat.zero_le 9) hexpr
      rw [List.append_nil]
      exact ⟨hspelled, hpasses⟩
    · cases h
    · cases h

end Formula
end TurtleGraphics
