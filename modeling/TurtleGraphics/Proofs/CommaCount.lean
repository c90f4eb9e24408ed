import Mathlib.Algebra.GroupWithZero.Nat
import Mathlib.Algebra.Order.BigOperators.Group.List
import Mathlib.Algebra.Order.Group.Nat
import TurtleGraphics.Proofs.OperatorClimbing

/-!
# TurtleGraphics.Proofs.CommaCount

How many commas a formula has. Commas stand between the arguments of calls only, so there is one for
each argument of a call but its first (`Tally`). Which functions are called can be seen from the tokens
(`callNames`), and every call has as many arguments as its function takes. So the tokens alone say how
many commas there must be, and a formula that lost some of them, but no other token, cannot be read
(`Thinned.not_read`).
-/

namespace TurtleGraphics
namespace Formula

/-! ## Names in front of brackets -/

/-- Whether a bracket opens at the front. -/
def opens : List Token → Bool
  | .opening _ :: _ => true
  | _ => false

/-- The names directly in front of an opening bracket. -/
def callNames : List Token → List String
  | .ident name :: ts => if opens ts then name :: callNames ts else callNames ts
  | _ :: ts => callNames ts
  | [] => []

theorem callNames_cons {t : Token} (ht : ∀ name, t ≠ .ident name) (ts : List Token) :
    callNames (t :: ts) = callNames ts := by
  cases t with
  | ident name => exact absurd rfl (ht name)
  | num value => rfl
  | op symbol => rfl
  | opening b => rfl
  | closing b => rfl
  | comma => rfl

theorem callNames_append {bs : List Token} (hb : opens bs = false) (as : List Token) :
    callNames (as ++ bs) = callNames as ++ callNames bs := by
  induction as with
  | nil => rfl
  | cons a as ih =>
    have hopens : opens (as ++ bs) = opens as := by
      cases as with
      | nil => exact hb
      | cons a as => cases a <;> rfl
    cases a with
    | ident name =>
      rw [List.cons_append, callNames, callNames, hopens, ih]
      split <;> rfl
    | num value => exact ih
    | op symbol => exact ih
    | opening b => exact ih
    | closing b => exact ih
    | comma => exact ih

/-! ## Commas and calls -/

/-- The tokens call these functions, and have a comma for each of their arguments but the first. -/
structure Tally (ts : List Token) (calls : List (String × Nat)) : Prop where
  names : (callNames ts).Perm (calls.map Prod.fst)
  commas : ts.count .comma = (calls.map fun call => call.2 - 1).sum

namespace Tally

theorem nil : Tally [] [] :=
  ⟨.nil, rfl⟩

theorem append {as bs : List Token} {calls calls' : List (String × Nat)} (ha : Tally as calls)
    (hb : Tally bs calls') (hopens : opens bs = false) : Tally (as ++ bs) (calls ++ calls') := by
  constructor
  · rw [callNames_append hopens, List.map_append]
    exact ha.names.append hb.names
  · rw [List.count_append, List.map_append, List.sum_append, ha.commas, hb.commas]

/-- A token that is no name and no comma changes nothing. -/
theorem cons {t : Token} {ts : List Token} {calls : List (String × Nat)} (h : Tally ts calls)
    (hname : ∀ name, t ≠ .ident name) (hcomma : t ≠ .comma) : Tally (t :: ts) calls := by
  constructor
  · rw [callNames_cons hname]
    exact h.names
  · rw [List.count_cons_of_ne hcomma]
    exact h.commas

/-- The tokens of a bracket. -/
theorem bracket {ts : List Token} {calls : List (String × Nat)} (h : Tally ts calls) (b : Bracket) :
    Tally (.opening b :: (ts ++ [.closing b])) calls := by
  have hclosing : Tally [.closing b] [] := nil.cons (by simp) (by simp)
  have hboth := h.append hclosing rfl
  rw [List.append_nil] at hboth
  exact hboth.cons (by simp) (by simp)

/-- An operator between two operands. -/
theorem binary {ls rs : List Token} {calls calls' : List (String × Nat)} (hl : Tally ls calls)
    (hr : Tally rs calls') (symbol : Symbol) :
    Tally (ls ++ .op symbol :: rs) (calls ++ calls') :=
  hl.append (hr.cons (by simp) (by simp)) rfl

end Tally

open Grammar

mutual

theorem Grammar.Operand.tally {ts : List Token} {e : Expr} : Operand ts e → Tally ts e.calls
  | .num _ => Tally.nil.cons (by simp) (by simp)
  | .var name => ⟨.nil, by simp [Expr.calls]⟩
  | .sign _ h => h.tally.cons (by simp) (by simp)
  | .bracket b h => h.tally.bracket b
  | .callEmpty name b => ⟨.refl _, by simp [Expr.calls, Expr.callsAll]⟩
  | @Operand.call name b ts args h => by
    obtain ⟨hnames, hcommas⟩ := h.tally
    have hclosing : callNames (ts ++ [.closing b]) = callNames ts ++ [] := callNames_append rfl ts
    constructor
    · rw [callNames, opens, if_pos rfl, callNames_cons (by simp), hclosing, List.append_nil,
        Expr.calls, List.map_append]
      exact (hnames.cons name).trans (List.perm_append_singleton name _).symm
    · have hinside : (Token.ident name :: .opening b :: (ts ++ [.closing b])).count .comma =
          ts.count .comma := by simp
      rw [hinside, hcommas, Expr.calls, List.map_append, List.sum_append, List.map_singleton,
        List.sum_singleton]

theorem Grammar.Expression.tally {n : Nat} {ts : List Token} {e : Expr} :
    Expression n ts e → Tally ts e.calls
  | .operand h => h.tally
  | .raise h => h.tally
  | .power _ hl hr => hl.tally.binary hr.tally _
  | .binary _ _ hl hr => hl.tally.binary hr.tally _

/-- Between arguments, there is one comma less than there are arguments. -/
theorem Grammar.Arguments.tally {ts : List Token} {args : List Expr} : Arguments ts args →
    (callNames ts).Perm ((Expr.callsAll args).map Prod.fst) ∧
      ts.count .comma = ((Expr.callsAll args).map fun call => call.2 - 1).sum + (args.length - 1)
  | .last h => by
    obtain ⟨hnames, hcommas⟩ := h.tally
    simp only [Expr.callsAll, List.append_nil]
    exact ⟨hnames, hcommas⟩
  | .cons h hs => by
    obtain ⟨hnames, hcommas⟩ := h.tally
    obtain ⟨hnames', hcommas'⟩ := hs.tally
    have hpos : ∀ {us : List Token} {es : List Expr}, Arguments us es → 0 < es.length := by
      intro us es h
      cases h <;> simp
    have := hpos hs
    constructor
    · rw [callNames_append rfl, callNames_cons (by simp), Expr.callsAll, List.map_append]
      exact hnames.append hnames'
    · rw [List.count_append, List.count_cons_self, hcommas, hcommas', Expr.callsAll, List.map_append,
        List.sum_append, List.length_cons]
      omega

end

/-- A formula that was read has as many commas as the functions in front of its brackets need. -/
theorem count_comma_of_ofTokens {lib : Library} {own : Option (String × Nat)} {ts : List Token}
    {e : Expr} (h : Expr.ofTokens (lib.checkCall own) ts = .ok e) :
    ts.count .comma =
      ((callNames ts).map fun name => (lib.arityDefining? own name).getD 0 - 1).sum := by
  obtain ⟨hspelled, hpasses⟩ := expression_of_ofTokens h
  have hknows := Library.passes_iff_knows.1 hpasses
  obtain ⟨hnames, hcommas⟩ := hspelled.tally
  rw [hcommas, (hnames.map _).sum_eq, List.map_map]
  congr 1
  refine List.map_congr_left fun call hcall => ?_
  simp [hknows call hcall]

/-! ## Products without a sign -/

theorem opens_withProducts (ts : List Token) : opens (Token.withProducts ts) = opens ts := by
  fun_cases Token.withProducts ts with
  | case1 => rfl
  | case2 a => rfl
  | case3 a b rest h => cases a <;> rfl
  | case4 a b rest h => cases a <;> rfl

theorem callNames_withProducts (ts : List Token) :
    callNames (Token.withProducts ts) = callNames ts := by
  fun_induction Token.withProducts ts with
  | case1 => rfl
  | case2 a => rfl
  | case3 a b rest h ih =>
    cases a with
    | ident name =>
      have hopens : opens (b :: rest) = false := by
        cases b <;> first | rfl | cases h
      rw [callNames, callNames, hopens, ← ih]
      rfl
    | num value => exact ih
    | op symbol => exact ih
    | opening b => exact ih
    | closing b => exact ih
    | comma => exact ih
  | case4 a b rest h ih =>
    cases a with
    | ident name => rw [callNames, callNames, opens_withProducts, ih]
    | num value => exact ih
    | op symbol => exact ih
    | opening b => exact ih
    | closing b => exact ih
    | comma => exact ih

theorem count_comma_withProducts (ts : List Token) :
    (Token.withProducts ts).count .comma = ts.count .comma := by
  fun_induction Token.withProducts ts with
  | case1 => rfl
  | case2 a => rfl
  | case3 a b rest h ih => simp [List.count_cons, ih]
  | case4 a b rest h ih => rw [List.count_cons, List.count_cons, ih]

/-! ## Lost commas -/

/-- The second list is the first one without some of its commas. -/
inductive Thinned : List Token → List Token → Prop where
  | nil : Thinned [] []
  | keep (t : Token) {ts us : List Token} : Thinned ts us → Thinned (t :: ts) (t :: us)
  | drop {ts us : List Token} : Thinned ts us → Thinned (.comma :: ts) us

namespace Thinned

variable {ts us : List Token}

theorem refl : ∀ ts : List Token, Thinned ts ts
  | [] => .nil
  | t :: ts => .keep t (refl ts)

theorem append (h : Thinned ts us) {ts' us' : List Token} (h' : Thinned ts' us') :
    Thinned (ts ++ ts') (us ++ us') := by
  induction h with
  | nil => exact h'
  | keep t _ ih => exact .keep t ih
  | drop _ ih => exact .drop ih

theorem count_comma_le (h : Thinned ts us) : us.count .comma ≤ ts.count .comma := by
  induction h with
  | nil => exact Nat.le_refl 0
  | keep t _ ih =>
    rw [List.count_cons, List.count_cons]
    omega
  | drop _ ih =>
    rw [List.count_cons_self]
    omega

/-- Without the comma between them, a name can come to stand in front of a bracket; no name ceases to. -/
theorem callNames_sublist (h : Thinned ts us) : (callNames ts).Sublist (callNames us) := by
  induction h with
  | nil => exact .slnil
  | drop _ ih => exact ih
  | @keep t ts us hthin ih =>
    by_cases ht : ∃ name, t = .ident name
    · obtain ⟨name, rfl⟩ := ht
      have hopens : opens ts = true → opens us = true := by
        intro h
        cases hthin with
        | nil => cases h
        | keep t _ => cases t <;> first | rfl | cases h
        | drop _ => cases h
      rw [callNames, callNames]
      split
      · rename_i h
        rw [if_pos (hopens h)]
        exact ih.cons_cons name
      · split
        · exact ih.cons name
        · exact ih
    · have ht : ∀ name, t ≠ .ident name := fun name hname => ht ⟨name, hname⟩
      rw [callNames_cons ht, callNames_cons ht]
      exact ih

/-- A formula that can be read has more than commas in it, and cannot be read without some of them. -/
theorem not_read (h : Thinned ts us) (hfewer : us.count .comma < ts.count .comma) {lib : Library}
    {own : Option (String × Nat)} {e : Expr}
    (he : Expr.ofTokens (lib.checkCall own) (Token.withProducts ts) = .ok e) :
    us ≠ [] ∧ ∃ error, Expr.ofTokens (lib.checkCall own) (Token.withProducts us) = .error error := by
  have hts := count_comma_of_ofTokens he
  rw [count_comma_withProducts, callNames_withProducts] at hts
  have hle := (h.callNames_sublist.map fun name =>
    (lib.arityDefining? own name).getD 0 - 1).sum_le_sum (by simp)
  constructor
  · rintro rfl
    rw [callNames, List.map_nil, List.sum_nil] at hle
    omega
  · cases hus : Expr.ofTokens (lib.checkCall own) (Token.withProducts us) with
    | error error => exact ⟨error, rfl⟩
    | ok e' =>
      have hus := count_comma_of_ofTokens hus
      rw [count_comma_withProducts, callNames_withProducts] at hus
      omega

end Thinned

end Formula
end TurtleGraphics
