import TurtleGraphics.Proofs.CallDepth

/-!
# TurtleGraphics.Proofs.ClosedBodies

Which variables a formula depends on. Evaluation asks the scope for the variables of the formula itself
(`Expr.variableNames`) and for nothing else: what a name that is not bound means, and what a call comes to,
does not depend on the scope, however deep calls nest. So scopes that agree on these variables are
interchangeable (`Library.evalWithin_congr`), a call depends on its scope through the results of its
arguments only (`Library.evalWithin_call_congr`), and a body has no variables but its parameters
(`Function.scope_eq_none_iff`).
-/

namespace TurtleGraphics
namespace Formula

/-! ## The variables of a formula -/

mutual

/-- The names that stand as variables in a formula. The bodies of the functions it calls do not count. -/
def Expr.variableNames : Expr → List String
  | .num _ => []
  | .var name => [name]
  | .binary _ left right => left.variableNames ++ right.variableNames
  | .unary _ operand => operand.variableNames
  | .call _ args => Expr.variableNamesAll args

def Expr.variableNamesAll : List Expr → List String
  | [] => []
  | arg :: args => arg.variableNames ++ Expr.variableNamesAll args

end

/-- The scopes give the same value to each of the names, or none. -/
def Scope.AgreeOn (names : List String) (v w : Scope) : Prop :=
  ∀ name ∈ names, v name = w name

/-! ## Evaluation -/

section Trees

variable {var var' : String → Except Error Float} {call : String → List Float → Except Error Float}

mutual

theorem Expr.evalWith_congr : ∀ e : Expr, (∀ name ∈ e.variableNames, var name = var' name) →
    e.evalWith var call = e.evalWith var' call
  | .num value, _ => by
    rw [evalWith, evalWith]
  | .var name, h => by
    rw [evalWith, evalWith]
    exact h name (by simp [variableNames])
  | .unary op e, h => by
    rw [evalWith_unary, evalWith_unary, evalWith_congr e h]
  | .binary op left right, h => by
    rw [variableNames, List.forall_mem_append] at h
    rw [evalWith_binary, evalWith_binary, evalWith_congr left h.1, evalWith_congr right h.2]
  | .call name args, h => by
    rw [evalWith_call, evalWith_call, evalAllWith_congr args h]

theorem Expr.evalAllWith_congr : ∀ es : List Expr,
    (∀ name ∈ Expr.variableNamesAll es, var name = var' name) →
    Expr.evalAllWith var call es = Expr.evalAllWith var' call es
  | [], _ => by
    rw [evalAllWith, evalAllWith]
  | e :: es, h => by
    rw [variableNamesAll, List.forall_mem_append] at h
    rw [evalAllWith_cons, evalAllWith_cons, evalWith_congr e h.1, evalAllWith_congr es h.2]

end

/-- The values of results, up to the first error. -/
def collect : List (Except Error Float) → Except Error (List Float)
  | [] => .ok []
  | r :: rs => r.bind fun x => (collect rs).map (x :: ·)

theorem evalAllWith_eq_collect (es : List Expr) :
    Expr.evalAllWith var call es = collect (es.map (·.evalWith var call)) := by
  induction es with
  | nil => rw [Expr.evalAllWith]; rfl
  | cons e es ih => rw [Expr.evalAllWith_cons, ih]; rfl

theorem collect_map_ok (xs : List Float) : collect (xs.map .ok) = .ok xs := by
  induction xs with
  | nil => rfl
  | cons x xs ih => rw [List.map_cons, collect, ih]; rfl

end Trees

namespace Library

variable (lib : Library) (room : Nat)

/-- Only the binding of the name itself can make a difference to what it means. -/
theorem valueOf_congr {call : String → List Float → Except Error Float} {v w : Scope} {name : String}
    (h : v name = w name) : lib.valueOf call v name = lib.valueOf call w name := by
  rw [valueOf, valueOf, h]

theorem evalWithin_congr {e : Expr} {v w : Scope} (h : Scope.AgreeOn e.variableNames v w) :
    lib.evalWithin room v e = lib.evalWithin room w e :=
  e.evalWith_congr fun name hname => lib.valueOf_congr (h name hname)

theorem evalWithin_call (v : Scope) (name : String) (args : List Expr) :
    lib.evalWithin room v (.call name args) =
      (collect (args.map (lib.evalWithin room v))).bind (lib.callAt room name) := by
  rw [evalWithin, Expr.evalWith_call, evalAllWith_eq_collect]
  rfl

theorem evalWithin_call_congr {v w : Scope} {args args' : List Expr}
    (h : args.map (lib.evalWithin room v) = args'.map (lib.evalWithin room w)) (name : String) :
    lib.evalWithin room v (.call name args) = lib.evalWithin room w (.call name args') := by
  rw [evalWithin_call, evalWithin_call, h]

/-- A call of a defined function goes on with its body. -/
theorem evalWithin_enter {v : Scope} {name : String} {f : Function} {args : List Expr} {xs : List Float}
    (hbuiltin : Builtin.ofName? name = none) (hfind : lib.find? name = some f)
    (hargs : args.map (lib.evalWithin (room + 1) v) = xs.map .ok) (harity : f.arity = xs.length) :
    lib.evalWithin (room + 1) v (.call name args) = lib.evalWithin room (f.scope xs) f.body := by
  rw [evalWithin_call, hargs, collect_map_ok]
  simp only [Except.bind, callAt_eq, callWith, hbuiltin, hfind, harity]
  rfl

end Library

/-! ## Parameters -/

/-- A call with as many arguments as parameters binds the parameters and nothing else. -/
theorem Function.scope_eq_none_iff {f : Function} {xs : List Float} (h : f.arity = xs.length)
    (name : String) : f.scope xs name = none ↔ name ∉ f.params := by
  have hparams : (f.params.zip xs).map Prod.fst = f.params := List.map_fst_zip (Nat.le_of_eq h)
  rw [scope, List.lookup_eq_none_iff]
  conv => rhs; rw [← hparams, List.mem_map]
  simp only [List.mem_reverse, bne_iff_ne]
  exact ⟨fun hne ⟨p, hp, heq⟩ => hne p hp heq.symm, fun hne p hp heq => hne ⟨p, hp, heq.symm⟩⟩

/-! ## Scopes that agree -/

/-- Bodies are closed over their parameters. Scopes that agree on the variables of a formula give it the
same value or the same error. At any depth, a call depends on its scope through the results of its
arguments only, and a call of a defined function is its body in whatever scope has the parameters, and
they alone, for the variables of the body. -/
theorem eval_of_agreeing_scopes (lib : Library) :
    (∀ (e : Expr) (v w : Scope), Scope.AgreeOn e.variableNames v w → lib.eval v e = lib.eval w e) ∧
    ∀ depth : Nat,
      (∀ (name : String) (args args' : List Expr) (v w : Scope),
        args.map (lib.evalAt depth v) = args'.map (lib.evalAt depth w) →
        lib.evalAt depth v (.call name args) = lib.evalAt depth w (.call name args')) ∧
      ∀ (name : String) (f : Function) (args : List Expr) (xs : List Float) (v u : Scope),
        depth < maxCallDepth → Builtin.ofName? name = none → lib.find? name = some f →
        args.map (lib.evalAt depth v) = xs.map .ok → f.arity = xs.length →
        Scope.AgreeOn f.body.variableNames u (f.scope xs) →
        lib.evalAt depth v (.call name args) = lib.evalAt (depth + 1) u f.body ∧
          ∀ other, f.scope xs other = none ↔ other ∉ f.params := by
  refine ⟨fun e v w h => lib.evalWithin_congr _ h, fun depth => ⟨?_, ?_⟩⟩
  · intro name args args' v w h
    exact lib.evalWithin_call_congr _ h name
  · intro name f args xs v u hdepth hbuiltin hfind hargs harity hagree
    refine ⟨?_, f.scope_eq_none_iff harity⟩
    have hroom : maxCallDepth - depth = maxCallDepth - (depth + 1) + 1 := by omega
    calc lib.evalAt depth v (.call name args)
        = lib.evalWithin (maxCallDepth - (depth + 1)) (f.scope xs) f.body := by
          change args.map (lib.evalWithin (maxCallDepth - depth) v) = _ at hargs
          change lib.evalWithin (maxCallDepth - depth) v _ = _
          rw [hroom] at hargs ⊢
          exact lib.evalWithin_enter _ hbuiltin hfind hargs harity
      _ = lib.evalAt (depth + 1) u f.body := (lib.evalWithin_congr _ hagree).symm

/-- Two functions: `g(x) = x + y`, which has a variable besides its parameter, and `h(y) = g(y)`. -/
def sumsWithin : Library :=
  (Library.empty.insert "g" ⟨["x"], .binary .add (.var "x") (.var "y")⟩).insert "h"
    ⟨["y"], .call "g" [.var "y"]⟩

/-- The value of `x`, and perhaps one of `y`. -/
def scopeOf (x : Float) (y : Option Float) : Scope :=
  fun name => if name = "x" then some x else if name = "y" then y else none

/-- In `h(x)` the variable `y` is bound by the caller, or not, and by `h`; the body of `g` sees neither. -/
theorem eval_of_agreeing_scopes_sumsWithin :
    scopeOf 2 (some 1) "y" ≠ scopeOf 2 none "y" ∧
      Scope.AgreeOn (Expr.call "h" [.var "x"]).variableNames (scopeOf 2 (some 1)) (scopeOf 2 none) ∧
      sumsWithin.eval (scopeOf 2 (some 1)) (.call "h" [.var "x"]) =
        sumsWithin.eval (scopeOf 2 none) (.call "h" [.var "x"]) ∧
      sumsWithin.eval (scopeOf 2 none) (.call "h" [.var "x"]) = .error (.undefinedVariable "y") ∧
      sumsWithin.evalAt 0 (scopeOf 2 (some 1)) (.call "g" [.num 3]) =
        sumsWithin.evalAt 1 (scopeOf 3 none) (.binary .add (.var "x") (.var "y")) := by
  have hagree : Scope.AgreeOn (Expr.call "h" [.var "x"]).variableNames (scopeOf 2 (some 1))
      (scopeOf 2 none) := by
    simp [Scope.AgreeOn, Expr.variableNames, Expr.variableNamesAll, scopeOf]
  have hclosed := eval_of_agreeing_scopes sumsWithin
  refine ⟨by simp [scopeOf], hagree, hclosed.1 _ _ _ hagree, rfl, ?_⟩
  refine ((hclosed.2 0).2 "g" _ [.num 3] [3] (scopeOf 2 (some 1)) _ (by decide) rfl rfl rfl rfl ?_).1
  simp only [Scope.AgreeOn, Expr.variableNames, List.forall_mem_append, List.forall_mem_singleton]
  exact ⟨rfl, rfl⟩

end Formula
end TurtleGraphics
