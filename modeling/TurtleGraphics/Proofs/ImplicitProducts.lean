import Mathlib.Data.List.Chain
import TurtleGraphics.Proofs.OperatorClimbing

/-!
# TurtleGraphics.Proofs.ImplicitProducts

Products without a sign are an extension of the notation that takes nothing away. `withProducts` puts
multiplication signs between neighbours that read as a product (`Product`), and does nothing else to the
tokens (`putsIn_withProducts`); no such neighbours are left (`explicit_withProducts`), so there is nothing
to do a second time.

The grammar of formulas has no two operands side by side: whatever it puts together it puts together by an
operator, a comma or a bracket, and none of these is part of a product. So tokens that can be read as they
are stay as they are (`Grammar.Expression.explicit`).
-/

namespace TurtleGraphics
namespace Formula

namespace Token

/-! ## Neighbours -/

/-- The neighbours that read as a product, such as `2x`, `2(`, `)x`, `)(`, `x y` and `x 2`. A name before a
bracket is that of a call. -/
inductive Product : Token → Token → Prop where
  | numberName (x : Float) (name : String) : Product (.num x) (.ident name)
  | numberBracket (x : Float) (b : Bracket) : Product (.num x) (.opening b)
  | bracketName (b : Bracket) (name : String) : Product (.closing b) (.ident name)
  | bracketBracket (b b' : Bracket) : Product (.closing b) (.opening b')
  | nameName (name name' : String) : Product (.ident name) (.ident name')
  | nameNumber (name : String) (x : Float) : Product (.ident name) (.num x)

theorem areFactors_iff {a b : Token} : areFactors a b = true ↔ Product a b := by
  constructor
  · intro h
    cases a <;> cases b <;> cases h <;> constructor
  · rintro ⟨⟩ <;> rfl

theorem not_product_of_areFactors {a b : Token} (h : areFactors a b = false) : ¬Product a b := by
  rw [← areFactors_iff, h]
  simp

/-- All products are written with their sign. -/
def Explicit (ts : List Token) : Prop :=
  ts.IsChain fun a b => ¬Product a b

/-- The tokens that are no part of a product, on either side. -/
def Separates (t : Token) : Prop :=
  ∀ other, ¬Product t other ∧ ¬Product other t

theorem separates_op (symbol : Symbol) : Separates (.op symbol) :=
  fun _ => ⟨nofun, nofun⟩

theorem separates_comma : Separates .comma :=
  fun _ => ⟨nofun, nofun⟩

namespace Explicit

variable {t : Token} {ts us : List Token}

theorem cons (h : Explicit ts) (ht : ∀ other, ¬Product t other) : Explicit (t :: ts) :=
  List.IsChain.cons h fun other _ => ht other

theorem concat (h : Explicit ts) (ht : ∀ other, ¬Product other t) : Explicit (ts ++ [t]) :=
  List.isChain_append.2 ⟨h, .singleton t, fun other _ _ hx => Option.mem_some_iff.1 hx ▸ ht other⟩

theorem separate (h : Explicit ts) (h' : Explicit us) (ht : Separates t) : Explicit (ts ++ t :: us) :=
  List.isChain_split.2 ⟨h.concat fun other => (ht other).2, h'.cons fun other => (ht other).1⟩

/-- The tokens of a bracket. -/
theorem bracket (h : Explicit ts) (b : Bracket) : Explicit (.opening b :: (ts ++ [.closing b])) := by
  have hclosed : Explicit (ts ++ [.closing b]) := h.concat fun _ => nofun
  exact hclosed.cons fun _ => nofun

/-- A name before a bracket. -/
theorem call (name : String) {b : Bracket} (h : Explicit (.opening b :: ts)) :
    Explicit (.ident name :: .opening b :: ts) :=
  .cons_cons nofun h

end Explicit

/-! ## Putting signs in -/

/-- `us` is `ts` with multiplication signs put in, each between two tokens of `ts` that are neighbours there
and read as a product. -/
def PutsIn (ts us : List Token) : Prop :=
  ∃ marked : List (Token × Bool),
    marked.map Prod.fst = us ∧ (marked.filter fun t => !t.2).map Prod.fst = ts ∧
      ∀ front sign back, marked = front ++ (sign, true) :: back →
        sign = .op .star ∧ ∃ a b before after, Product a b ∧ front = before ++ [(a, false)] ∧
          back = (b, false) :: after

/-- The tokens with all products written out, each with whether it was put in. -/
def marks : List Token → List (Token × Bool)
  | [] => []
  | [a] => [(a, false)]
  | a :: b :: rest =>
    if areFactors a b then (a, false) :: (op .star, true) :: marks (b :: rest)
    else (a, false) :: marks (b :: rest)

theorem marks_cons (a : Token) (rest : List Token) : ∃ after, marks (a :: rest) = (a, false) :: after := by
  cases rest with
  | nil => exact ⟨[], rfl⟩
  | cons b rest =>
    rw [marks]
    split <;> exact ⟨_, rfl⟩

theorem map_fst_marks (ts : List Token) : (marks ts).map Prod.fst = withProducts ts := by
  fun_induction marks ts with
  | case1 => rfl
  | case2 a => rfl
  | case3 a b rest h ih => rw [withProducts, if_pos h, ← ih]; rfl
  | case4 a b rest h ih => rw [withProducts, if_neg h, ← ih]; rfl

theorem filter_marks (ts : List Token) : ((marks ts).filter fun t => !t.2).map Prod.fst = ts := by
  fun_induction marks ts with
  | case1 => rfl
  | case2 a => rfl
  | case3 a b rest h ih => simpa using ih
  | case4 a b rest h ih => simpa using ih

theorem between_of_marks {ts : List Token} {front back : List (Token × Bool)} {sign : Token}
    (h : marks ts = front ++ (sign, true) :: back) :
    sign = .op .star ∧ ∃ a b before after, Product a b ∧ front = before ++ [(a, false)] ∧
      back = (b, false) :: after := by
  -- a token of `ts` has no mark, so the sign comes after the first one
  fun_induction marks ts generalizing front with
  | case1 => simp at h
  | case2 a => cases front <;> simp at h
  | case3 a b rest hfactors ih =>
    rcases front with _ | ⟨first, _ | ⟨second, front⟩⟩
    · simp at h
    · simp only [List.cons_append, List.nil_append, List.cons.injEq, Prod.mk.injEq] at h
      obtain ⟨rfl, ⟨hsign, -⟩, hback⟩ := h
      obtain ⟨after, hafter⟩ := marks_cons b rest
      exact ⟨hsign.symm, a, b, [], after, areFactors_iff.1 hfactors, rfl, hback ▸ hafter⟩
    · simp only [List.cons_append, List.cons.injEq] at h
      obtain ⟨rfl, rfl, hrest⟩ := h
      obtain ⟨hsign, c, d, before, after, hproduct, rfl, hback⟩ := ih hrest
      exact ⟨hsign, c, d, _ :: _ :: before, after, hproduct, rfl, hback⟩
  | case4 a b rest hfactors ih =>
    rcases front with _ | ⟨first, front⟩
    · simp at h
    · simp only [List.cons_append, List.cons.injEq] at h
      obtain ⟨rfl, hrest⟩ := h
      obtain ⟨hsign, c, d, before, after, hproduct, rfl, hback⟩ := ih hrest
      exact ⟨hsign, c, d, _ :: before, after, hproduct, rfl, hback⟩

theorem putsIn_withProducts (ts : List Token) : PutsIn ts (withProducts ts) :=
  ⟨marks ts, map_fst_marks ts, filter_marks ts, fun _ _ _ => between_of_marks⟩

theorem head?_withProducts (ts : List Token) : (withProducts ts).head? = ts.head? := by
  fun_cases withProducts ts <;> rfl

theorem explicit_withProducts (ts : List Token) : Explicit (withProducts ts) := by
  fun_induction withProducts ts with
  | case1 => exact .nil
  | case2 a => exact .singleton a
  | case3 a b rest h ih => exact .cons_cons nofun (ih.cons fun _ => nofun)
  | case4 a b rest h ih =>
    -- the pass keeps the first token, so `a` has its old neighbour
    refine List.IsChain.cons ih fun c hc => ?_
    rw [head?_withProducts] at hc
    cases hc
    exact not_product_of_areFactors (by simpa using h)

theorem withProducts_of_explicit {ts : List Token} (h : Explicit ts) : withProducts ts = ts := by
  fun_induction withProducts ts with
  | case1 => rfl
  | case2 a => rfl
  | case3 a b rest hfactors ih =>
    exact absurd (areFactors_iff.1 hfactors) (List.isChain_cons_cons.1 h).1
  | case4 a b rest hfactors ih => rw [ih (List.isChain_cons_cons.1 h).2]

end Token

/-! ## Formulas -/

namespace Grammar

open Token

mutual

theorem Operand.explicit {ts : List Token} {e : Expr} : Operand ts e → Explicit ts
  | .num value => .singleton _
  | .var name => .singleton _
  | .sign _ h => h.explicit.cons fun other => (separates_op _ other).1
  | .bracket b h => h.explicit.bracket b
  | .callEmpty name b => .call name (Explicit.bracket .nil b)
  | .call name b h => .call name (h.explicit.bracket b)

theorem Expression.explicit {n : Nat} {ts : List Token} {e : Expr} : Expression n ts e → Explicit ts
  | .operand h => h.explicit
  | .raise h => h.explicit
  | .power _ hl hr => hl.explicit.separate hr.explicit (separates_op _)
  | .binary _ _ hl hr => hl.explicit.separate hr.explicit (separates_op _)

theorem Arguments.explicit {ts : List Token} {args : List Expr} : Arguments ts args → Explicit ts
  | .last h => h.explicit
  | .cons h hs => h.explicit.separate hs.explicit separates_comma

end

end Grammar

/-- Writing products out is conservative. It puts multiplication signs in, between neighbours that read as
a product, and changes nothing else; it leaves no such neighbours, and doing it again changes nothing. What
can be read as it is, whichever calls are allowed, is not changed at all. -/
theorem withProducts_conservative (ts : List Token) :
    Token.PutsIn ts (Token.withProducts ts) ∧
      (∀ front a b back, Token.withProducts ts = front ++ a :: b :: back → ¬Token.Product a b) ∧
      Token.withProducts (Token.withProducts ts) = Token.withProducts ts ∧
      ∀ (check : CallCheck) (e : Expr), Expr.ofTokens check ts = .ok e →
        Token.withProducts ts = ts := by
  have hexplicit := Token.explicit_withProducts ts
  refine ⟨Token.putsIn_withProducts ts, ?_, Token.withProducts_of_explicit hexplicit, ?_⟩
  · intro front a b back h
    exact List.isChain_iff_forall_rel_of_append_cons_cons.1 hexplicit h
  · intro check e h
    exact Token.withProducts_of_explicit (expression_of_ofTokens h).1.explicit

/-- The tokens of `-2 * f(x, 3) + (y)` can be read and stay; in `2x(3)(y)` a sign is put in before `x`, which
is then called, and one between the brackets. -/
theorem withProducts_conservative_samples :
    (∃ e, Expr.ofTokens anyCall [.op .minus, .num 2, .op .star, .ident "f", .opening .round, .ident "x",
        .comma, .num 3, .closing .round, .op .plus, .opening .square, .ident "y", .closing .square] =
      .ok e) ∧
    Token.withProducts [.op .minus, .num 2, .op .star, .ident "f", .opening .round, .ident "x", .comma,
        .num 3, .closing .round, .op .plus, .opening .square, .ident "y", .closing .square] =
      [.op .minus, .num 2, .op .star, .ident "f", .opening .round, .ident "x", .comma, .num 3,
        .closing .round, .op .plus, .opening .square, .ident "y", .closing .square] ∧
    Token.withProducts [.num 2, .ident "x", .opening .round, .num 3, .closing .round, .opening .round,
        .ident "y", .closing .round] =
      [.num 2, .op .star, .ident "x", .opening .round, .num 3, .closing .round, .op .star,
        .opening .round, .ident "y", .closing .round] :=
  ⟨⟨_, rfl⟩, (withProducts_conservative _).2.2.2 anyCall _ rfl, rfl⟩

end Formula
end TurtleGraphics
