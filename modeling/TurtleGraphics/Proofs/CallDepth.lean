import TurtleGraphics.Formula.Library

/-!
# TurtleGraphics.Proofs.CallDepth

The limit on nested calls cuts evaluations off and does nothing else. `Evaluates` are the rules of
evaluation without a limit: operands and arguments from left to right, the first error ends it, and a body
sees the arguments of its call only. An evaluation that is not cut off follows these rules
(`evaluates_evalWithin`), and what the rules give is all that it can come to (`Evaluates.upholds`).

Calls that run out of room are an error that nothing catches. So a result that is another one was found
without running out anywhere, and more room cannot change it (`upholds_evalWithin`).
-/

namespace TurtleGraphics
namespace Formula

/-! ## Evaluation as a sequence of steps -/

namespace Expr

variable (var : String → Except Error Float) (call : String → List Float → Except Error Float)

theorem evalWith_unary (op : UnaryOp) (e : Expr) :
    (Expr.unary op e).evalWith var call = (e.evalWith var call).map op.apply := by
  rw [evalWith]
  cases e.evalWith var call <;> rfl

theorem evalWith_binary (op : BinaryOp) (left right : Expr) :
    (Expr.binary op left right).evalWith var call =
      (left.evalWith var call).bind fun l =>
        match op.decided? l with
        | some x => .ok x
        | none => (right.evalWith var call).map (op.apply l) := by
  rw [evalWith]
  cases left.evalWith var call with
  | error e => rfl
  | ok l =>
    dsimp only [Except.bind]
    cases op.decided? l with
    | some x => rfl
    | none => cases right.evalWith var call <;> rfl

theorem evalWith_call (name : String) (args : List Expr) :
    (Expr.call name args).evalWith var call = (evalAllWith var call args).bind (call name) := by
  rw [evalWith]
  cases evalAllWith var call args <;> rfl

theorem evalAllWith_cons (arg : Expr) (args : List Expr) :
    evalAllWith var call (arg :: args) =
      (arg.evalWith var call).bind fun x => (evalAllWith var call args).map (x :: ·) := by
  rw [evalAllWith]
  cases arg.evalWith var call with
  | error e => rfl
  | ok x => cases evalAllWith var call args <;> rfl

end Expr

/-! ## Results that were not cut off -/

/-- The second result is the first one, unless the first was cut off. -/
def Upholds {α : Type} (r s : Except Error α) : Prop :=
  r ≠ .error .callsTooDeep → s = r

namespace Upholds

variable {α β : Type} {r r' : Except Error α}

theorem refl (r : Except Error α) : Upholds r r :=
  fun _ => rfl

theorem of_cut (r : Except Error α) : Upholds (.error .callsTooDeep) r :=
  fun h => absurd rfl h

theorem ne_of_bind {f : α → Except Error β} (h : r.bind f ≠ .error .callsTooDeep) :
    r ≠ .error .callsTooDeep := by
  rintro rfl
  exact h rfl

theorem ne_of_map {f : α → β} (h : r.map f ≠ .error .callsTooDeep) : r ≠ .error .callsTooDeep := by
  rintro rfl
  exact h rfl

theorem bind {f f' : α → Except Error β} (h : Upholds r r') (hf : ∀ a, Upholds (f a) (f' a)) :
    Upholds (r.bind f) (r'.bind f') := by
  intro hcut
  rw [h (ne_of_bind hcut)]
  cases r with
  | error e => rfl
  | ok a => exact hf a hcut

theorem map (h : Upholds r r') (f : α → β) : Upholds (r.map f) (r'.map f) :=
  fun hcut => congrArg (Except.map f) (h (ne_of_map hcut))

theorem bind_error {e : Error} (h : Upholds r (.error e)) (f : α → Except Error β) :
    Upholds (r.bind f) (.error e) := by
  intro hcut
  rw [← h (ne_of_bind hcut)]
  rfl

theorem bind_ok {a : α} {f : α → Except Error β} {s : Except Error β} (h : Upholds r (.ok a))
    (hf : Upholds (f a) s) : Upholds (r.bind f) s := by
  intro hcut
  have hr := h (ne_of_bind hcut)
  subst hr
  exact hf hcut

end Upholds

/-! ## More room -/

section Trees

variable {var var' : String → Except Error Float} {call call' : String → List Float → Except Error Float}

mutual

theorem upholds_evalWith (hvar : ∀ name, Upholds (var name) (var' name))
    (hcall : ∀ name xs, Upholds (call name xs) (call' name xs)) : ∀ e : Expr,
    Upholds (e.evalWith var call) (e.evalWith var' call')
  | .num value => by
    rw [Expr.evalWith, Expr.evalWith]
    exact .refl _
  | .var name => by
    rw [Expr.evalWith, Expr.evalWith]
    exact hvar name
  | .unary op e => by
    rw [Expr.evalWith_unary, Expr.evalWith_unary]
    exact (upholds_evalWith hvar hcall e).map op.apply
  | .binary op left right => by
    rw [Expr.evalWith_binary, Expr.evalWith_binary]
    refine (upholds_evalWith hvar hcall left).bind fun l => ?_
    cases op.decided? l with
    | some x => exact .refl _
    | none => exact (upholds_evalWith hvar hcall right).map (op.apply l)
  | .call name args => by
    rw [Expr.evalWith_call, Expr.evalWith_call]
    exact (upholds_evalAllWith hvar hcall args).bind (hcall name)

theorem upholds_evalAllWith (hvar : ∀ name, Upholds (var name) (var' name))
    (hcall : ∀ name xs, Upholds (call name xs) (call' name xs)) : ∀ es : List Expr,
    Upholds (Expr.evalAllWith var call es) (Expr.evalAllWith var' call' es)
  | [] => by
    rw [Expr.evalAllWith, Expr.evalAllWith]
    exact .refl _
  | e :: es => by
    rw [Expr.evalAllWith_cons, Expr.evalAllWith_cons]
    exact (upholds_evalWith hvar hcall e).bind fun x => (upholds_evalAllWith hvar hcall es).map (x :: ·)

end

end Trees

namespace Library

variable {lib : Library}

/-- The value of a formula inside which at most `room` calls of defined functions nest. -/
def evalWithin (lib : Library) (room : Nat) (vars : Scope) (e : Expr) : Except Error Float :=
  e.evalWith (lib.valueOf (lib.callAt room) vars) (lib.callAt room)

/-- The value of a body that is entered with room for `room` calls, its own counted. -/
def enterAt (lib : Library) : Nat → Function → List Float → Except Error Float
  | 0, _, _ => .error .callsTooDeep
  | room + 1, f, xs => lib.evalWithin room (f.scope xs) f.body

theorem callAt_eq (lib : Library) (room : Nat) : lib.callAt room = lib.callWith (lib.enterAt room) := by
  cases room <;> rfl

theorem upholds_valueOf {call call' : String → List Float → Except Error Float}
    (hcall : ∀ name xs, Upholds (call name xs) (call' name xs)) (vars : Scope) (name : String) :
    Upholds (lib.valueOf call vars name) (lib.valueOf call' vars name) := by
  unfold valueOf
  cases vars name with
  | some x => exact .refl _
  | none =>
    cases constant? name with
    | some x => exact .refl _
    | none =>
      cases lib.find? name with
      | none => exact .refl _
      | some f =>
        dsimp only
        split
        · exact hcall name []
        · exact .refl _

theorem upholds_callWith {enter enter' : Function → List Float → Except Error Float}
    (henter : ∀ f xs, Upholds (enter f xs) (enter' f xs)) (name : String) (xs : List Float) :
    Upholds (lib.callWith enter name xs) (lib.callWith enter' name xs) := by
  unfold callWith
  cases Builtin.ofName? name with
  | some f => exact .refl _
  | none =>
    cases lib.find? name with
    | none => exact .refl _
    | some f =>
      dsimp only
      split
      · exact henter f xs
      · exact .refl _

theorem upholds_callAt {room room' : Nat} (h : room ≤ room') (name : String) (xs : List Float) :
    Upholds (lib.callAt room name xs) (lib.callAt room' name xs) := by
  induction room generalizing room' name xs with
  | zero =>
    rw [callAt_eq, callAt_eq]
    exact upholds_callWith (fun f xs => .of_cut _) name xs
  | succ room ih =>
    obtain ⟨room', rfl⟩ : ∃ k, room' = k + 1 := ⟨room' - 1, by omega⟩
    have ih := fun name xs => ih (Nat.le_of_succ_le_succ h) name xs
    rw [callAt_eq, callAt_eq]
    exact upholds_callWith (fun f xs => upholds_evalWith (upholds_valueOf ih _) ih f.body) name xs

/-- A result that was not cut off stays the same with more room. -/
theorem upholds_evalWithin {room room' : Nat} (h : room ≤ room') (vars : Scope) (e : Expr) :
    Upholds (lib.evalWithin room vars e) (lib.evalWithin room' vars e) :=
  upholds_evalWith (upholds_valueOf (upholds_callAt h) vars) (upholds_callAt h) e

end Library

/-! ## Evaluation without a limit -/

mutual

/-- What a formula evaluates to, if calls may nest as deep as they will. -/
inductive Evaluates (lib : Library) : Scope → Expr → Except Error Float → Prop where
  | num (vars : Scope) (x : Float) : Evaluates lib vars (.num x) (.ok x)
  | bound {vars : Scope} {name : String} {x : Float} : vars name = some x →
      Evaluates lib vars (.var name) (.ok x)
  | constant {vars : Scope} {name : String} {x : Float} : vars name = none → constant? name = some x →
      Evaluates lib vars (.var name) (.ok x)
  | nullary {vars : Scope} {name : String} {f : Function} {r : Except Error Float} : vars name = none →
      constant? name = none → lib.find? name = some f → f.params = [] → Calls lib name [] r →
      Evaluates lib vars (.var name) r
  | undefined {vars : Scope} {name : String} : vars name = none → constant? name = none →
      (∀ f, lib.find? name = some f → f.params ≠ []) →
      Evaluates lib vars (.var name) (.error (.undefinedVariable name))
  | unary {vars : Scope} {e : Expr} {r : Except Error Float} (op : UnaryOp) : Evaluates lib vars e r →
      Evaluates lib vars (.unary op e) (r.map op.apply)
  | leftFails {vars : Scope} {left : Expr} {err : Error} (op : BinaryOp) (right : Expr) :
      Evaluates lib vars left (.error err) → Evaluates lib vars (.binary op left right) (.error err)
  | decided {vars : Scope} {left : Expr} {op : BinaryOp} {l x : Float} (right : Expr) :
      Evaluates lib vars left (.ok l) → op.decided? l = some x →
      Evaluates lib vars (.binary op left right) (.ok x)
  | binary {vars : Scope} {left right : Expr} {op : BinaryOp} {l : Float} {r : Except Error Float} :
      Evaluates lib vars left (.ok l) → op.decided? l = none → Evaluates lib vars right r →
      Evaluates lib vars (.binary op left right) (r.map (op.apply l))
  | argumentFails {vars : Scope} {args : List Expr} {err : Error} (name : String) :
      EvaluatesAll lib vars args (.error err) → Evaluates lib vars (.call name args) (.error err)
  | call {vars : Scope} {name : String} {args : List Expr} {xs : List Float} {r : Except Error Float} :
      EvaluatesAll lib vars args (.ok xs) → Calls lib name xs r → Evaluates lib vars (.call name args) r

inductive EvaluatesAll (lib : Library) : Scope → List Expr → Except Error (List Float) → Prop where
  | nil (vars : Scope) : EvaluatesAll lib vars [] (.ok [])
  | headFails {vars : Scope} {arg : Expr} {err : Error} (args : List Expr) :
      Evaluates lib vars arg (.error err) → EvaluatesAll lib vars (arg :: args) (.error err)
  | cons {vars : Scope} {arg : Expr} {args : List Expr} {x : Float} {r : Except Error (List Float)} :
      Evaluates lib vars arg (.ok x) → EvaluatesAll lib vars args r →
      EvaluatesAll lib vars (arg :: args) (r.map (x :: ·))

/-- What a call with given arguments comes to. -/
inductive Calls (lib : Library) : String → List Float → Except Error Float → Prop where
  | builtin {name : String} {xs : List Float} {f : Builtin} {x : Float} :
      Builtin.ofName? name = some f → f.value? xs = some x → Calls lib name xs (.ok x)
  | builtinArity {name : String} {xs : List Float} {f : Builtin} : Builtin.ofName? name = some f →
      f.value? xs = none → Calls lib name xs (.error (.arity name f.arity xs.length))
  | unknown {name : String} (xs : List Float) : Builtin.ofName? name = none → lib.find? name = none →
      Calls lib name xs (.error (.unknownFunction name))
  | arity {name : String} {xs : List Float} {f : Function} : Builtin.ofName? name = none →
      lib.find? name = some f → f.arity ≠ xs.length →
      Calls lib name xs (.error (.arity name f.arity xs.length))
  | enter {name : String} {xs : List Float} {f : Function} {r : Except Error Float} :
      Builtin.ofName? name = none → lib.find? name = some f → f.arity = xs.length →
      Evaluates lib (f.scope xs) f.body r → Calls lib name xs r

end

/-! ## Evaluations that are not cut off -/

section Rules

variable {lib : Library} {call : String → List Float → Except Error Float}

theorem evaluates_valueOf
    (hcall : ∀ name xs, call name xs ≠ .error .callsTooDeep → Calls lib name xs (call name xs))
    (vars : Scope) (name : String) (h : lib.valueOf call vars name ≠ .error .callsTooDeep) :
    Evaluates lib vars (.var name) (lib.valueOf call vars name) := by
  unfold Library.valueOf at h ⊢
  cases hvar : vars name with
  | some x => exact .bound hvar
  | none =>
    cases hconstant : constant? name with
    | some x => exact .constant hvar hconstant
    | none =>
      simp only [hvar, hconstant] at h
      cases hfind : lib.find? name with
      | none => exact .undefined hvar hconstant (by simp [hfind])
      | some f =>
        simp only [hfind] at h
        by_cases hempty : f.params.isEmpty = true
        · rw [if_pos hempty] at h
          simp only [hempty]
          exact .nullary hvar hconstant hfind (List.isEmpty_iff.1 hempty) (hcall name [] h)
        · simp only [hempty]
          refine .undefined hvar hconstant fun g hg => ?_
          rw [hfind, Option.some.injEq] at hg
          subst hg
          exact fun hnil => hempty (List.isEmpty_iff.2 hnil)

mutual

theorem evaluates_evalWith
    (hcall : ∀ name xs, call name xs ≠ .error .callsTooDeep → Calls lib name xs (call name xs))
    (vars : Scope) : ∀ e : Expr,
    e.evalWith (lib.valueOf call vars) call ≠ .error .callsTooDeep →
    Evaluates lib vars e (e.evalWith (lib.valueOf call vars) call)
  | .num value, _ => by
    rw [Expr.evalWith]
    exact .num vars value
  | .var name, h => by
    rw [Expr.evalWith] at h ⊢
    exact evaluates_valueOf hcall vars name h
  | .unary op e, h => by
    rw [Expr.evalWith_unary] at h ⊢
    exact .unary op (evaluates_evalWith hcall vars e (Upholds.ne_of_map h))
  | .binary op left right, h => by
    rw [Expr.evalWith_binary] at h ⊢
    have hleft := evaluates_evalWith hcall vars left (Upholds.ne_of_bind h)
    cases hl : left.evalWith (lib.valueOf call vars) call with
    | error err => exact .leftFails op right (hl ▸ hleft)
    | ok l =>
      rw [hl] at h hleft
      dsimp only [Except.bind] at h ⊢
      cases hdecided : op.decided? l with
      | some x => exact .decided right hleft hdecided
      | none =>
        simp only [hdecided] at h
        exact .binary hleft hdecided (evaluates_evalWith hcall vars right (Upholds.ne_of_map h))
  | .call name args, h => by
    rw [Expr.evalWith_call] at h ⊢
    have hargs := evaluatesAll_evalAllWith hcall vars args (Upholds.ne_of_bind h)
    cases hxs : Expr.evalAllWith (lib.valueOf call vars) call args with
    | error err => exact .argumentFails name (hxs ▸ hargs)
    | ok xs =>
      rw [hxs] at h hargs
      exact .call hargs (hcall name xs h)

theorem evaluatesAll_evalAllWith
    (hcall : ∀ name xs, call name xs ≠ .error .callsTooDeep → Calls lib name xs (call name xs))
    (vars : Scope) : ∀ es : List Expr,
    Expr.evalAllWith (lib.valueOf call vars) call es ≠ .error .callsTooDeep →
    EvaluatesAll lib vars es (Expr.evalAllWith (lib.valueOf call vars) call es)
  | [], _ => by
    rw [Expr.evalAllWith]
    exact .nil vars
  | e :: es, h => by
    rw [Expr.evalAllWith_cons] at h ⊢
    have hhead := evaluates_evalWith hcall vars e (Upholds.ne_of_bind h)
    cases hx : e.evalWith (lib.valueOf call vars) call with
    | error err => exact .headFails es (hx ▸ hhead)
    | ok x =>
      rw [hx] at h hhead
      exact .cons hhead (evaluatesAll_evalAllWith hcall vars es (Upholds.ne_of_map h))

end

end Rules

namespace Library

theorem calls_callWith {lib : Library} {enter : Function → List Float → Except Error Float}
    (henter : ∀ f xs, enter f xs ≠ .error .callsTooDeep →
      Evaluates lib (f.scope xs) f.body (enter f xs)) (name : String) (xs : List Float)
    (h : lib.callWith enter name xs ≠ .error .callsTooDeep) :
    Calls lib name xs (lib.callWith enter name xs) := by
  unfold callWith at h ⊢
  cases hbuiltin : Builtin.ofName? name with
  | some f =>
    dsimp only
    cases hvalue : f.value? xs with
    | some x => exact .builtin hbuiltin hvalue
    | none => exact .builtinArity hbuiltin hvalue
  | none =>
    simp only [hbuiltin] at h
    cases hfind : lib.find? name with
    | none => exact .unknown xs hbuiltin hfind
    | some f =>
      simp only [hfind] at h
      by_cases harity : f.arity = xs.length
      · rw [if_pos harity] at h
        simp only [if_pos harity]
        exact .enter hbuiltin hfind harity (henter f xs h)
      · simp only [if_neg harity]
        exact .arity hbuiltin hfind harity

theorem calls_callAt {lib : Library} (room : Nat) : ∀ name xs,
    lib.callAt room name xs ≠ .error .callsTooDeep → Calls lib name xs (lib.callAt room name xs) := by
  rw [callAt_eq]
  induction room with
  | zero => exact calls_callWith fun f xs h => absurd rfl h
  | succ room ih =>
    rw [← callAt_eq] at ih
    exact calls_callWith fun f xs h => evaluates_evalWith ih (f.scope xs) f.body h

/-- An evaluation that is not cut off follows the rules. -/
theorem evaluates_evalWithin {lib : Library} {room : Nat} {vars : Scope} {e : Expr}
    (h : lib.evalWithin room vars e ≠ .error .callsTooDeep) :
    Evaluates lib vars e (lib.evalWithin room vars e) :=
  evaluates_evalWith (calls_callAt room) vars e h

end Library

/-! ## What the rules give -/

mutual

/-- Whatever the rules give is what an evaluation comes to that is not cut off. -/
theorem Evaluates.upholds {lib : Library} (room : Nat) {vars : Scope} {e : Expr}
    {r : Except Error Float} : Evaluates lib vars e r → Upholds (lib.evalWithin room vars e) r
  | .num vars x => by
    rw [Library.evalWithin, Expr.evalWith]
    exact .refl _
  | .bound hvar => by
    rw [Library.evalWithin, Expr.evalWith, Library.valueOf, hvar]
    exact .refl _
  | .constant hvar hconstant => by
    rw [Library.evalWithin, Expr.evalWith, Library.valueOf, hvar, hconstant]
    exact .refl _
  | .nullary hvar hconstant hfind hparams hcall => by
    rw [Library.evalWithin, Expr.evalWith, Library.valueOf, hvar, hconstant, hfind]
    simp only [hparams, List.isEmpty_nil]
    exact hcall.upholds room
  | @Evaluates.undefined _ _ name hvar hconstant hfind => by
    rw [Library.evalWithin, Expr.evalWith, Library.valueOf, hvar, hconstant]
    cases hf : lib.find? name with
    | none => exact .refl _
    | some f =>
      simp only [List.isEmpty_iff, hfind f hf]
      exact .refl _
  | .unary op h => by
    rw [Library.evalWithin, Expr.evalWith_unary]
    exact (h.upholds room).map op.apply
  | .leftFails op right h => by
    rw [Library.evalWithin, Expr.evalWith_binary]
    exact (h.upholds room).bind_error _
  | .decided right h hdecided => by
    rw [Library.evalWithin, Expr.evalWith_binary]
    refine (h.upholds room).bind_ok ?_
    rw [hdecided]
    exact .refl _
  | @Evaluates.binary _ _ _ _ op l _ h hdecided hright => by
    rw [Library.evalWithin, Expr.evalWith_binary]
    refine (h.upholds room).bind_ok ?_
    rw [hdecided]
    exact (hright.upholds room).map (op.apply l)
  | .argumentFails name h => by
    rw [Library.evalWithin, Expr.evalWith_call]
    exact (h.upholds room).bind_error _
  | .call h hcall => by
    rw [Library.evalWithin, Expr.evalWith_call]
    exact (h.upholds room).bind_ok (hcall.upholds room)

theorem EvaluatesAll.upholds {lib : Library} (room : Nat) {vars : Scope} {es : List Expr}
    {r : Except Error (List Float)} : EvaluatesAll lib vars es r →
    Upholds (Expr.evalAllWith (lib.valueOf (lib.callAt room) vars) (lib.callAt room) es) r
  | .nil vars => by
    rw [Expr.evalAllWith]
    exact .refl _
  | .headFails args h => by
    rw [Expr.evalAllWith_cons]
    exact (h.upholds room).bind_error _
  | @EvaluatesAll.cons _ _ _ _ x _ h hs => by
    rw [Expr.evalAllWith_cons]
    exact (h.upholds room).bind_ok ((hs.upholds room).map (x :: ·))

theorem Calls.upholds {lib : Library} (room : Nat) {name : String} {xs : List Float}
    {r : Except Error Float} : Calls lib name xs r → Upholds (lib.callAt room name xs) r
  | .builtin hbuiltin hvalue => by
    rw [Library.callAt_eq, Library.callWith, hbuiltin]
    simp only [hvalue]
    exact .refl _
  | .builtinArity hbuiltin hvalue => by
    rw [Library.callAt_eq, Library.callWith, hbuiltin]
    simp only [hvalue]
    exact .refl _
  | .unknown xs hbuiltin hfind => by
    rw [Library.callAt_eq, Library.callWith, hbuiltin, hfind]
    exact .refl _
  | .arity hbuiltin hfind harity => by
    rw [Library.callAt_eq, Library.callWith, hbuiltin, hfind]
    simp only [if_neg harity]
    exact .refl _
  | .enter hbuiltin hfind harity h => by
    rw [Library.callAt_eq, Library.callWith, hbuiltin, hfind]
    simp only [if_pos harity]
    cases room with
    | zero => exact .of_cut _
    | succ room => exact h.upholds room

end

/-! ## The limit -/

/-- The limit on nested calls only replaces results. What a formula evaluates to inside some number of
calls, if not cut off, is what it evaluates to inside fewer. And a formula that is not cut off outside all
calls evaluates to the one result that evaluation without a limit has. -/
theorem evalAt_of_not_cut (lib : Library) (vars : Scope) (e : Expr) :
    (∀ depth fewer, fewer ≤ depth → lib.evalAt depth vars e ≠ .error .callsTooDeep →
      lib.evalAt fewer vars e = lib.evalAt depth vars e) ∧
    (lib.eval vars e ≠ .error .callsTooDeep →
      ∀ r, Evaluates lib vars e r ↔ r = lib.eval vars e) := by
  refine ⟨fun depth fewer hle h => ?_, fun h r => ⟨fun hr => ?_, fun hr => ?_⟩⟩
  · exact Library.upholds_evalWithin (Nat.sub_le_sub_left hle maxCallDepth) vars e h
  · exact hr.upholds (maxCallDepth - 0) h
  · subst hr
    exact Library.evaluates_evalWithin h

/-- A function that calls itself as often as its argument says. -/
def countdown : Library :=
  Library.empty.insert "f" ⟨["n"], .binary .and (.var "n") (.call "f" [.binary .sub (.var "n") (.num 1)])⟩

/-- With the argument 2 three calls nest: inside 253 calls there is room for them, inside 254 there is
not. -/
theorem evalAt_of_not_cut_countdown :
    countdown.evalAt 254 noVariables (.call "f" [.num 2]) = .error .callsTooDeep ∧
      countdown.evalAt 253 noVariables (.call "f" [.num 2]) = .ok 0 ∧
      countdown.eval noVariables (.call "f" [.num 2]) = .ok 0 ∧
      Evaluates countdown noVariables (.call "f" [.num 2]) (.ok 0) := by
  have hdeep : countdown.evalAt 253 noVariables (.call "f" [.num 2]) = .ok 0 := rfl
  have hne : countdown.evalAt 253 noVariables (.call "f" [.num 2]) ≠ .error .callsTooDeep := by
    rw [hdeep]
    simp
  have hlimit := evalAt_of_not_cut countdown noVariables (.call "f" [.num 2])
  have heval : countdown.eval noVariables (.call "f" [.num 2]) = .ok 0 :=
    (hlimit.1 253 0 (by decide) hne).trans hdeep
  exact ⟨rfl, hdeep, heval, (hlimit.2 (by simp [heval]) _).2 heval.symm⟩

end Formula
end TurtleGraphics
