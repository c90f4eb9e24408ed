import TurtleGraphics.Proofs.OperatorGrammar

/-!
# TurtleGraphics.Proofs.OperatorClimbing

What the grammar of formulas derives is read, unless it nests too deep. A derivation leads the reader's
loop from operator to operator: behind the tokens of a derived expression the loop stands at that
expression (`Reaches`), because what follows cannot be part of an operand inside it (`FollowedBy`). A
reader with room for `n` levels is refused only by more than `n` tokens, so there is always room enough
for a given formula, and no tokens spell two formulas (`Grammar.Expression.unique`).
-/

namespace TurtleGraphics
namespace Formula

/-- What can stand behind an expression: no bracket that opens, and an operator only out of some. -/
structure FollowedBy (p : BinaryOp → Prop) (ts : List Token) : Prop where
  not_opening : ∀ b rest, ts ≠ .opening b :: rest
  operator : ∀ symbol rest, ts = .op symbol :: rest → ∃ op, symbol.binary? = some op ∧ p op

namespace FollowedBy

variable {p q : BinaryOp → Prop}

theorem imp (hpq : ∀ op, p op → q op) {ts : List Token} (h : FollowedBy p ts) : FollowedBy q ts := by
  refine ⟨h.not_opening, ?_⟩
  intro symbol rest hts
  obtain ⟨op, hop, hp⟩ := h.operator symbol rest hts
  exact ⟨op, hop, hpq op hp⟩

theorem nil : FollowedBy p [] :=
  ⟨by simp, by simp⟩

theorem closing (b : Bracket) (rest : List Token) : FollowedBy p (.closing b :: rest) :=
  ⟨by simp, by simp⟩

theorem comma (rest : List Token) : FollowedBy p (.comma :: rest) :=
  ⟨by simp, by simp⟩

theorem op {symbol : Symbol} {op : BinaryOp} (hop : symbol.binary? = some op) (hp : p op)
    (rest : List Token) : FollowedBy p (.op symbol :: rest) := by
  refine ⟨by simp, ?_⟩
  rintro _ _ ⟨⟩
  exact ⟨op, hop, hp⟩

end FollowedBy

namespace Grammar

theorem Operand.head {ts : List Token} {e : Expr} (h : Operand ts e) :
    ∃ t us, ts = t :: us ∧ ∀ b, t ≠ .closing b := by
  cases h <;> exact ⟨_, _, rfl, by simp⟩

theorem Expression.head {n : Nat} {ts : List Token} {e : Expr} :
    Expression n ts e → ∃ t us, ts = t :: us ∧ ∀ b, t ≠ .closing b
  | .operand h => h.head
  | .raise h => h.head
  | .power _ h _ => by
    obtain ⟨t, us, rfl, ht⟩ := h.head
    exact ⟨t, _, rfl, ht⟩
  | .binary _ _ h _ => by
    obtain ⟨t, us, rfl, ht⟩ := h.head
    exact ⟨t, _, rfl, ht⟩

theorem Arguments.head {ts : List Token} {args : List Expr} (h : Arguments ts args) :
    ∃ t us, ts = t :: us ∧ ∀ b, t ≠ .closing b := by
  cases h with
  | last h => exact h.head
  | cons h _ =>
    obtain ⟨t, us, rfl, ht⟩ := h.head
    exact ⟨t, _, rfl, ht⟩

theorem Arguments.length_le {ts : List Token} {args : List Expr} :
    Arguments ts args → args.length ≤ ts.length + 1
  | .last _ => by simp
  | .cons h hs => by
    have := hs.length_le
    simp
    omega

end Grammar

namespace Level

variable {check : CallCheck}

/-- The level below one that has room for `n`. -/
def below (check : CallCheck) : Nat → Option Level
  | 0 => none
  | n + 1 => some (withRoom check n)

theorem primary_withRoom (n : Nat) (ts : List Token) :
    (withRoom check n).primary ts = readPrimary check (below check n) ts := by
  cases n <;> rfl

theorem chain_withRoom (n least : Nat) (left : Expr) (ts : List Token) :
    (withRoom check n).chain least left ts = readChain (below check n) least left ts := by
  cases n <;> rfl

/-- The loop of a level with room for `n` has come to `e` after some more tokens, or there was no room
for as many. -/
def Reaches (check : CallCheck) (n size least : Nat) (e : Expr) (rest : List Token) (r : Reading) :
    Prop :=
  (∃ m, n ≤ m + size ∧ r = (withRoom check m).chain least e rest) ∨
    r = .error .nestedTooDeep ∧ n < size

theorem Reaches.trans {n s s' least : Nat} {l e : Expr} {mid rest : List Token} {r : Reading}
    (h : Reaches check n s least l mid r)
    (hnext : ∀ m, Reaches check m s' least e rest ((withRoom check m).chain least l mid)) :
    Reaches check n (s + s') least e rest r := by
  rcases h with ⟨m, hm, rfl⟩ | ⟨rfl, hn⟩
  · rcases hnext m with ⟨m', hm', heq⟩ | ⟨heq, hlt⟩
    · exact .inl ⟨m', by omega, heq⟩
    · exact .inr ⟨heq, by omega⟩
  · exact .inr ⟨rfl, by omega⟩

/-- The loop ends in front of what it cannot take. -/
theorem chain_of_followedBy {n least : Nat} {e : Expr} {rest : List Token}
    (h : FollowedBy (fun op => op.level < least) rest) :
    (withRoom check n).chain least e rest = .ok (e, rest) := by
  rw [chain_withRoom]
  unfold readChain
  split
  · rename_i symbol tail
    obtain ⟨op, hop, hlt⟩ := h.operator symbol tail rfl
    simp [hop, hlt]
  · rfl

/-- The loop takes an operator and its right operand. -/
theorem reaches_operator {symbol : Symbol} {op : BinaryOp} {least : Nat} {l r : Expr}
    {rs rest : List Token} (hop : symbol.binary? = some op) (hleast : least ≤ op.level)
    (hright : ∀ m, Reaches check m rs.length op.rightLevel r rest
      ((withRoom check m).expr op.rightLevel (rs ++ rest)))
    (hrest : FollowedBy (fun next => next.level < op.rightLevel) rest) (n : Nat) :
    Reaches check n (rs.length + 1) least (.binary op l r) rest
      ((withRoom check n).chain least l (.op symbol :: (rs ++ rest))) := by
  rw [chain_withRoom]
  simp only [readChain, hop, if_neg (Nat.not_lt.2 hleast)]
  cases n with
  | zero => exact .inr ⟨rfl, by omega⟩
  | succ m =>
    simp only [below, descend]
    rcases hright m with ⟨m', -, heq⟩ | ⟨heq, hlt⟩
    · rw [heq, chain_of_followedBy hrest]
      exact .inl ⟨m, by omega, rfl⟩
    · rw [heq]
      exact .inr ⟨rfl, by omega⟩

/-- A reading that gives `a` and leaves `rest`, unless there was no room for as many tokens. -/
def Gives {α : Type} (n size : Nat) (a : α) (rest : List Token) (r : Except Error (α × List Token)) :
    Prop :=
  r = .ok (a, rest) ∨ r = .error .nestedTooDeep ∧ n + 1 < size

theorem reaches_of_primary {n least size : Nat} {ts rest : List Token} {e : Expr}
    (h : Gives n size e rest ((withRoom check n).primary ts)) :
    Reaches check n size least e rest ((withRoom check n).expr least ts) := by
  unfold Level.expr
  rcases h with h | ⟨h, hn⟩
  · rw [h]
    exact .inl ⟨n, by omega, rfl⟩
  · rw [h]
    exact .inr ⟨rfl, by omega⟩

/-- A formula that stands inside brackets is read one level down. -/
theorem gives_inside {ts rest : List Token} {e : Expr}
    (h : ∀ m, Reaches check m ts.length 0 e rest ((withRoom check m).expr 0 (ts ++ rest)))
    (hrest : FollowedBy (fun op => op.level < 0) rest) (n : Nat) :
    Gives n (ts.length + 2) e rest (descend (below check n) (·.expr 0 (ts ++ rest))) := by
  cases n with
  | zero => exact .inr ⟨rfl, by omega⟩
  | succ m =>
    simp only [below, descend]
    rcases h m with ⟨m', -, heq⟩ | ⟨heq, hlt⟩
    · rw [heq, chain_of_followedBy hrest]
      exact .inl rfl
    · exact .inr ⟨heq, by omega⟩

theorem gives_sign {symbol : Symbol} {op : UnaryOp} {ts rest : List Token} {e : Expr}
    (hop : symbol.unary? = some op) (hts : 0 < ts.length)
    (h : ∀ m, Gives m ts.length e rest ((withRoom check m).primary (ts ++ rest))) (n : Nat) :
    Gives n (ts.length + 1) (.unary op e) rest
      ((withRoom check n).primary (.op symbol :: (ts ++ rest))) := by
  rw [primary_withRoom]
  simp only [readPrimary, hop]
  cases n with
  | zero => exact .inr ⟨rfl, by omega⟩
  | succ m =>
    simp only [below, descend]
    rcases h m with heq | ⟨heq, hlt⟩
    · rw [heq]
      exact .inl rfl
    · rw [heq]
      exact .inr ⟨rfl, by omega⟩

theorem closeBracket_closing (b : Bracket) (rest : List Token) :
    closeBracket b (.closing b :: rest) = .ok rest := by
  simp [closeBracket]

theorem gives_bracket {b : Bracket} {ts rest : List Token} {e : Expr}
    (h : ∀ m, Reaches check m ts.length 0 e (.closing b :: rest)
      ((withRoom check m).expr 0 (ts ++ .closing b :: rest))) (n : Nat) :
    Gives n (ts.length + 2) e rest
      ((withRoom check n).primary (.opening b :: (ts ++ .closing b :: rest))) := by
  rw [primary_withRoom]
  simp only [readPrimary]
  rcases gives_inside h (.closing b rest) n with heq | ⟨heq, hlt⟩
  · rw [heq]
    simp only [closeBracket_closing]
    exact .inl rfl
  · rw [heq]
    exact .inr ⟨rfl, hlt⟩

theorem gives_callArguments {expr : List Token → Reading} {b : Bracket} {n size : Nat}
    {ts rest : List Token} {args : List Expr} (hts : Grammar.Arguments ts args)
    (h : ∀ fuel, args.length ≤ fuel → Gives n size args (.closing b :: rest)
      (argumentsWith expr fuel (ts ++ .closing b :: rest))) :
    Gives n size args rest (callArguments expr b (ts ++ .closing b :: rest)) := by
  obtain ⟨t, us, hhead, ht⟩ := hts.head
  have hlength := hts.length_le
  unfold callArguments
  split
  · rename_i b' tail hclosing
    rw [hhead] at hclosing
    cases hclosing
    exact absurd rfl (ht b')
  · rcases h ((ts ++ .closing b :: rest).length + 1) (by simp; omega) with heq | ⟨heq, hlt⟩
    · rw [heq]
      simp only [closeBracket_closing]
      exact .inl rfl
    · rw [heq]
      exact .inr ⟨rfl, hlt⟩

theorem gives_call {name : String} {b : Bracket} {n size : Nat} {ts rest : List Token}
    {args : List Expr} (hcheck : check name args.length = .ok ())
    (h : Gives n size args rest (callArguments (fun ts => descend (below check n) (·.expr 0 ts)) b ts)) :
    Gives n size (.call name args) rest
      ((withRoom check n).primary (.ident name :: .opening b :: ts)) := by
  rw [primary_withRoom]
  simp only [readPrimary]
  rcases h with heq | ⟨heq, hlt⟩
  · rw [heq]
    simp only [hcheck]
    exact .inl rfl
  · rw [heq]
    exact .inr ⟨rfl, hlt⟩

theorem Gives.mono {α : Type} {n size size' : Nat} {a : α} {rest : List Token}
    {r : Except Error (α × List Token)} (h : Gives n size a rest r) (hsize : size ≤ size') :
    Gives n size' a rest r := by
  rcases h with heq | ⟨heq, hlt⟩
  · exact .inl heq
  · exact .inr ⟨heq, by omega⟩

/-- Arguments are read one after the other. -/
theorem gives_cons {expr : List Token → Reading} {n s s' fuel : Nat} {e : Expr} {es : List Expr}
    {ts us rest : List Token} (hfirst : Gives n s e (.comma :: us) (expr ts))
    (hothers : Gives n s' es rest (argumentsWith expr fuel us)) :
    Gives n (max s s') (e :: es) rest (argumentsWith expr (fuel + 1) ts) := by
  unfold argumentsWith
  rcases hfirst with heq | ⟨heq, hlt⟩
  · rw [heq]
    rcases hothers with heq' | ⟨heq', hlt'⟩
    · simp only [heq']
      exact .inl rfl
    · simp only [heq']
      exact .inr ⟨rfl, by omega⟩
  · rw [heq]
    exact .inr ⟨rfl, by omega⟩

theorem gives_last {expr : List Token → Reading} {n s fuel : Nat} {e : Expr} {b : Bracket}
    {ts rest : List Token} (h : Gives n s e (.closing b :: rest) (expr ts)) :
    Gives n s [e] (.closing b :: rest) (argumentsWith expr (fuel + 1) ts) := by
  unfold argumentsWith
  rcases h with heq | ⟨heq, hlt⟩
  · rw [heq]
    exact .inl rfl
  · rw [heq]
    exact .inr ⟨rfl, hlt⟩

mutual

theorem gives_of_operand {ts : List Token} {e : Expr} :
    Grammar.Operand ts e → e.Passes check → ∀ rest : List Token,
      FollowedBy (fun _ => True) rest → ∀ n : Nat,
      Gives n ts.length e rest ((withRoom check n).primary (ts ++ rest))
  | .num value, _ => by
    intro rest _ n
    rw [primary_withRoom]
    exact .inl rfl
  | .var name, _ => by
    intro rest hrest n
    rw [primary_withRoom]
    cases rest with
    | nil => exact .inl rfl
    | cons t rest =>
      cases t with
      | opening b => exact absurd rfl (hrest.not_opening b rest)
      | _ => exact .inl rfl
  | .sign hop h, hpasses => by
    intro rest hrest n
    obtain ⟨t, us, hts, -⟩ := h.head
    exact gives_sign (Grammar.mem_signs_iff.1 hop) (by simp [hts])
      (gives_of_operand h hpasses rest hrest) n
  | .bracket b h, hpasses => by
    intro rest _ n
    have hinside := reaches_of_expression h hpasses 0 (.closing b :: rest) (Nat.le_refl 0) (.closing b rest)
    simpa using gives_bracket hinside n
  | .callEmpty name b, hpasses => by
    intro rest _ n
    refine gives_call (Expr.passes_call.1 hpasses).2 (.inl ?_)
    simp [callArguments, closeBracket_closing]
  | .call name b h, hpasses => by
    intro rest _ n
    obtain ⟨hargs, hcheck⟩ := Expr.passes_call.1 hpasses
    have hinside := gives_callArguments h (gives_of_arguments h hargs n b rest)
    simpa using (gives_call hcheck hinside).mono (Nat.le_succ _)

theorem reaches_of_expression {k : Nat} {ts : List Token} {e : Expr} :
    Grammar.Expression k ts e → e.Passes check → ∀ (least : Nat) (rest : List Token),
      least ≤ k → FollowedBy (Looser k) rest → ∀ n : Nat,
      Reaches check n ts.length least e rest ((withRoom check n).expr least (ts ++ rest))
  | .operand h, hpasses => by
    intro least rest _ hrest n
    exact reaches_of_primary (gives_of_operand h hpasses rest (hrest.imp fun _ _ => trivial) n)
  | .raise h, hpasses => by
    intro least rest hleast hrest n
    refine reaches_of_expression h hpasses least rest (by omega) (hrest.imp ?_) n
    intro op hop
    exact ⟨Nat.le_succ_of_le hop.1, hop.2⟩
  | @Grammar.Expression.power ls rs l r symbol op hmem hl hr, hpasses => by
    intro least rest hleast hrest n
    obtain ⟨hop, hlevel⟩ := Grammar.binary?_of_mem_infixes hmem
    obtain ⟨hpl, hpr⟩ := Expr.passes_binary.1 hpasses
    have hleft := gives_of_operand hl hpl (.op symbol :: (rs ++ rest)) (.op hop trivial _) n
    have hright := reaches_of_expression hr hpr 9 rest (Nat.le_refl 9) hrest
    obtain rfl := BinaryOp.eq_pow_of_level hlevel
    have hrest' : FollowedBy (Looser BinaryOp.pow.level) rest := hrest
    have hstops := hrest'.imp fun _ => BinaryOp.lt_rightLevel_iff.2
    simpa using (reaches_of_primary hleft).trans (reaches_operator hop hleast hright hstops)
  | @Grammar.Expression.binary k ls rs l r symbol op hk hmem hl hr, hpasses => by
    intro least rest hleast hrest n
    obtain ⟨hop, hlevel⟩ := Grammar.binary?_of_mem_infixes hmem
    obtain ⟨hpl, hpr⟩ := Expr.passes_binary.1 hpasses
    have hpow : op ≠ .pow := by
      rintro rfl
      rw [← hlevel] at hk
      exact absurd hk (by decide)
    have hleft := reaches_of_expression hl hpl least (.op symbol :: (rs ++ rest)) hleast
      (.op hop ⟨Nat.le_of_eq hlevel, hpow⟩ _) n
    have hright := reaches_of_expression hr hpr (k + 1) rest (Nat.le_refl _)
      (hrest.imp fun _ h => ⟨Nat.le_succ_of_le h.1, h.2⟩)
    subst hlevel
    rw [← BinaryOp.rightLevel_of_ne hpow] at hright
    have hstops := hrest.imp fun _ => BinaryOp.lt_rightLevel_iff.2
    simpa using hleft.trans (reaches_operator hop hleast hright hstops)

theorem gives_of_arguments {ts : List Token} {args : List Expr} :
    Grammar.Arguments ts args → Expr.PassAll check args → ∀ (n : Nat) (b : Bracket)
      (rest : List Token) (fuel : Nat), args.length ≤ fuel →
      Gives n (ts.length + 2) args (.closing b :: rest)
        (argumentsWith (fun ts => descend (below check n) (·.expr 0 ts)) fuel
          (ts ++ .closing b :: rest))
  | .last h, hpasses => by
    intro n b rest fuel hfuel
    obtain ⟨fuel, rfl⟩ : ∃ f, fuel = f + 1 := ⟨fuel - 1, by simp at hfuel; omega⟩
    refine gives_last (gives_inside ?_ (.closing b rest) n)
    exact reaches_of_expression h (Expr.passAll_cons.1 hpasses).1 0 _ (Nat.le_refl 0) (.closing b rest)
  | @Grammar.Arguments.cons ts us e es h hs, hpasses => by
    intro n b rest fuel hfuel
    obtain ⟨hfirst, hothers⟩ := Expr.passAll_cons.1 hpasses
    obtain ⟨fuel, rfl⟩ : ∃ f, fuel = f + 1 := ⟨fuel - 1, by simp at hfuel; omega⟩
    have harg := reaches_of_expression h hfirst 0 (.comma :: (us ++ .closing b :: rest))
      (Nat.le_refl 0) (.comma _)
    have hargs := gives_of_arguments hs hothers n b rest fuel (by simpa using hfuel)
    have hsize : max (ts.length + 2) (us.length + 2) ≤ (ts ++ .comma :: us).length + 2 := by
      simp
      omega
    simpa using (gives_cons (gives_inside harg (.comma _) n) hargs).mono hsize

end

end Level

/-- No tokens spell two formulas. -/
theorem Grammar.Expression.unique {ts : List Token} {e e' : Expr} (h : Expression 0 ts e)
    (h' : Expression 0 ts e') : e = e' := by
  have hread : ∀ {e}, Expression 0 ts e →
      (Level.withRoom anyCall ts.length).expr 0 (ts ++ []) = .ok (e, []) := by
    intro e h
    have hpasses : e.Passes anyCall := fun _ _ => rfl
    rcases Level.reaches_of_expression h hpasses 0 [] (Nat.le_refl 0) .nil ts.length with
      ⟨m, -, heq⟩ | ⟨-, hlt⟩
    · rw [heq, Level.chain_of_followedBy .nil]
    · exact absurd hlt (Nat.lt_irrefl _)
  have := (hread h).symm.trans (hread h')
  simpa using this

theorem ofTokens_of_expression {check : CallCheck} {ts : List Token} {e : Expr}
    (h : Grammar.Expression 0 ts e) (hpasses : e.Passes check) :
    Expr.ofTokens check ts = .ok e ∨
      Expr.ofTokens check ts = .error .nestedTooDeep ∧ maxNesting ≤ ts.length := by
  have hread := Level.reaches_of_expression h hpasses 0 [] (Nat.le_refl 0) .nil (maxNesting - 1)
  rw [List.append_nil] at hread
  obtain ⟨t, us, rfl, -⟩ := h.head
  unfold Expr.ofTokens
  rcases hread with ⟨m, -, heq⟩ | ⟨heq, hlt⟩
  · rw [heq, Level.chain_of_followedBy .nil]
    exact .inl rfl
  · rw [heq]
    exact .inr ⟨rfl, by omega⟩

/-! ## Formulas over a library -/

/-- All calls of a formula are of built-in or defined functions, or of the one being defined, with as
many arguments as they take. -/
def Library.Knows (lib : Library) (own : Option (String × Nat)) (e : Expr) : Prop :=
  ∀ call ∈ e.calls, lib.arityDefining? own call.1 = some call.2

theorem Library.checkCall_eq_ok_iff {lib : Library} {own : Option (String × Nat)} {name : String}
    {got : Nat} : lib.checkCall own name got = .ok () ↔ lib.arityDefining? own name = some got := by
  unfold checkCall
  cases lib.arityDefining? own name with
  | none => simp
  | some expected => simp

theorem Library.passes_iff_knows {lib : Library} {own : Option (String × Nat)} {e : Expr} :
    e.Passes (lib.checkCall own) ↔ lib.Knows own e := by
  simp only [Expr.Passes, Knows, checkCall_eq_ok_iff]

/-- The reader recognises the grammar. What it reads is derived, and calls known functions only; what is
derived and calls known functions only is read, unless it nests too deep, for which it must be long. And
there is only one formula to read. -/
theorem ofTokens_grammar (lib : Library) (own : Option (String × Nat)) (ts : List Token) :
    (∀ e, Expr.ofTokens (lib.checkCall own) ts = .ok e →
      Grammar.Expression 0 ts e ∧ lib.Knows own e) ∧
    (∀ e, Grammar.Expression 0 ts e → lib.Knows own e →
      Expr.ofTokens (lib.checkCall own) ts = .ok e ∨
        Expr.ofTokens (lib.checkCall own) ts = .error .nestedTooDeep ∧ maxNesting ≤ ts.length) ∧
    ∀ e e', Grammar.Expression 0 ts e → Grammar.Expression 0 ts e' → e = e' := by
  refine ⟨?_, ?_, fun e e' => Grammar.Expression.unique⟩
  · intro e h
    obtain ⟨hspelled, hpasses⟩ := expression_of_ofTokens h
    exact ⟨hspelled, Library.passes_iff_knows.1 hpasses⟩
  · intro e hspelled hknows
    exact ofTokens_of_expression hspelled (Library.passes_iff_knows.2 hknows)

/-- The formula `1 - 2 ^ x ^ -3 - f[4, y]` in the body of a function `f` with two parameters. -/
theorem ofTokens_differences :
    Expr.ofTokens (Library.empty.checkCall (some ("f", 2)))
      [.num 1, .op .minus, .num 2, .op .caret, .ident "x", .op .caret, .op .minus, .num 3, .op .minus,
        .ident "f", .opening .square, .num 4, .comma, .ident "y", .closing .square] =
      .ok (.binary .sub
        (.binary .sub (.num 1)
          (.binary .pow (.num 2) (.binary .pow (.var "x") (.unary .neg (.num 3)))))
        (.call "f" [.num 4, .var "y"])) := by
  have hinner : Grammar.Expression 9 [.ident "x", .op .caret, .op .minus, .num 3]
      (.binary .pow (.var "x") (.unary .neg (.num 3))) :=
    @Grammar.Expression.power [.ident "x"] [.op .minus, .num 3] _ _ .caret .pow (by decide)
      (.var "x") (.operand (.sign (by decide) (.num 3)))
  have hpowers : Grammar.Expression 9 [.num 2, .op .caret, .ident "x", .op .caret, .op .minus, .num 3]
      (.binary .pow (.num 2) (.binary .pow (.var "x") (.unary .neg (.num 3)))) :=
    @Grammar.Expression.power [.num 2] _ _ _ .caret .pow (by decide) (.num 2) hinner
  have hfirst := @Grammar.Expression.binary 7 [.num 1] _ _ _ .minus .sub (by decide) (by decide)
    ((Grammar.Expression.operand (.num 1)).lower (by decide)) (hpowers.lower (by decide))
  have hargs : Grammar.Arguments [.num 4, .comma, .ident "y"] [.num 4, .var "y"] :=
    @Grammar.Arguments.cons [.num 4] [.ident "y"] _ _
      ((Grammar.Expression.operand (.num 4)).lower (by decide))
      (.last ((Grammar.Expression.operand (.var "y")).lower (by decide)))
  have hwhole := Grammar.Expression.binary (by decide) (by decide : (.minus, .sub) ∈ Grammar.infixes 7)
    hfirst ((Grammar.Expression.operand (.call "f" .square hargs)).lower (by decide))
  refine ((ofTokens_grammar .empty (some ("f", 2)) _).2.1 _ (hwhole.lower (Nat.zero_le 7)) ?_).resolve_right
    fun hdeep => absurd hdeep.2 (by decide)
  simp [Library.Knows, Expr.calls, Expr.callsAll, Library.arityDefining?]

end Formula
end TurtleGraphics
