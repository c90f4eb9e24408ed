import TurtleGraphics.Formula.Definition
import TurtleGraphics.Proofs.OperatorClimbing

/-!
# TurtleGraphics.Proofs.CheckedCalls

A formula that was read does not go wrong later. Calls are checked against the library when a formula
is read, and looked up again at every evaluation, when the library may have changed. Names are never
taken out of a library, so a call finds a function; and it fits that function unless the name was given
another number of parameters meanwhile (`Library.Reshaped`).

The invariant is about all the bodies in a library (`Library.Closed`): every call in them finds a
function, which takes as many arguments as the call has or belongs to a name that was reshaped. Every
definition preserves it, and so evaluation ends in a value or in one of three errors.
-/

namespace TurtleGraphics
namespace Formula

/-! ## Sequences of definitions -/

/-- The texts of a definition. -/
structure Declaration where
  signature : String
  body : String

namespace Library

/-- The library after a definition; one that fails changes nothing. -/
def declare (lib : Library) (d : Declaration) : Library :=
  match lib.define d.signature d.body with
  | .error _ => lib
  | .ok (_, lib) => lib

def declareAll (lib : Library) (ds : List Declaration) : Library :=
  ds.foldl declare lib

/-- The definition gives a defined name another number of parameters. -/
def Reshapes (lib : Library) (d : Declaration) (name : String) : Prop :=
  ∃ f g lib', lib.find? name = some f ∧ lib.define d.signature d.body = .ok (name, lib') ∧
    lib'.find? name = some g ∧ g.arity ≠ f.arity

/-- Some of the definitions does so. -/
def Reshaped (lib : Library) : List Declaration → String → Prop
  | [], _ => False
  | d :: ds, name => lib.Reshapes d name ∨ (lib.declare d).Reshaped ds name

theorem find?_insert (lib : Library) (name other : String) (f : Function) :
    (lib.insert name f).find? other = if name = other then some f else lib.find? other := by
  simp [insert, find?, Std.TreeMap.getElem?_insert]

theorem arity?_eq_of_not_builtin {lib : Library} {name : String} (h : Builtin.ofName? name = none) :
    lib.arity? name = (lib.find? name).map Function.arity := by
  simp [arity?, h]

/-- A body is checked against the library that its definition makes. -/
theorem arity?_insert {name : String} (h : Builtin.ofName? name = none) (lib : Library)
    (f : Function) (other : String) :
    (lib.insert name f).arity? other = lib.arityDefining? (some (name, f.arity)) other := by
  by_cases hother : name = other
  · subst hother
    simp [arity?_eq_of_not_builtin h, find?_insert, arityDefining?]
  · simp [arity?, find?_insert, arityDefining?, hother]

theorem ofName?_of_readSignature {signature name : String} {params : List String}
    (h : readSignature signature = .ok (name, params)) : Builtin.ofName? name = none := by
  have hdeclare : ∀ {name' : String} {args : List Expr},
      readSignature.declare name' args = .ok (name, params) → Builtin.ofName? name = none := by
    intro name' args h
    unfold readSignature.declare at h
    split at h
    · cases h
    · split at h
      · cases h
      · cases h
        assumption
  unfold readSignature at h
  split at h
  · cases h
  · split at h
    · exact hdeclare h
    · exact hdeclare h
    · cases h

theorem define_eq_ok {lib lib' : Library} {signature body name : String}
    (h : lib.define signature body = .ok (name, lib')) :
    ∃ f, lib' = lib.insert name f ∧ Builtin.ofName? name = none ∧
      lib.Knows (some (name, f.arity)) f.body := by
  unfold define at h
  split at h
  · cases h
  · rename_i name' params hsignature
    split at h
    · cases h
    · rename_i tree hbody
      cases h
      refine ⟨⟨params, tree⟩, rfl, ofName?_of_readSignature hsignature, ?_⟩
      unfold Expr.ofText at hbody
      split at hbody
      · cases hbody
      · exact passes_iff_knows.1 (expression_of_ofTokens hbody).2

/-! ## Bodies that call known functions -/

/-- A function of this name takes `got` arguments, or the name is one of those that were reshaped. -/
def Fits (lib : Library) (loose : String → Prop) (name : String) (got : Nat) : Prop :=
  ∃ arity, lib.arity? name = some arity ∧ (arity = got ∨ loose name)

/-- All calls of a formula fit. -/
def Covers (lib : Library) (loose : String → Prop) (e : Expr) : Prop :=
  ∀ call ∈ e.calls, lib.Fits loose call.1 call.2

/-- The library covers its own bodies, and has no function with the name of a built-in one. -/
structure Closed (lib : Library) (loose : String → Prop) : Prop where
  not_builtin : ∀ {name f}, lib.find? name = some f → Builtin.ofName? name = none
  covers : ∀ {name f}, lib.find? name = some f → lib.Covers loose f.body

variable {lib : Library} {loose : String → Prop} {d : Declaration}

theorem closed_empty (loose : String → Prop) : Library.empty.Closed loose := by
  have hnone : ∀ name, Library.empty.find? name = none := by simp [Library.empty, find?]
  constructor <;> simp [hnone]

theorem Knows.covers {e : Expr} (h : lib.Knows none e) : lib.Covers loose e :=
  fun call hcall => ⟨call.2, h call hcall, .inl rfl⟩

theorem declare_of_error {e : Error} (h : lib.define d.signature d.body = .error e) :
    lib.declare d = lib := by
  simp [declare, h]

theorem declare_of_ok {name : String} {lib' : Library}
    (h : lib.define d.signature d.body = .ok (name, lib')) : lib.declare d = lib' := by
  simp [declare, h]

/-- A definition leaves every call with a function that it fits. -/
theorem Fits.declare {name : String} {got : Nat} (h : lib.Fits loose name got)
    (hloose : ∀ name, lib.Reshapes d name → loose name) : (lib.declare d).Fits loose name got := by
  cases hdefine : lib.define d.signature d.body with
  | error e =>
    rw [declare_of_error hdefine]
    exact h
  | ok defined =>
    obtain ⟨own, lib'⟩ := defined
    rw [declare_of_ok hdefine]
    obtain ⟨f, rfl, hown, -⟩ := define_eq_ok hdefine
    obtain ⟨arity, harity, hfits⟩ := h
    by_cases hname : own = name
    · subst hname
      refine ⟨f.arity, by simp [arity?_insert hown, arityDefining?], ?_⟩
      rw [arity?_eq_of_not_builtin hown, Option.map_eq_some_iff] at harity
      obtain ⟨before, hbefore, rfl⟩ := harity
      by_cases hsame : f.arity = before.arity
      · rw [hsame]
        exact hfits
      · refine .inr (hloose own ⟨before, f, _, hbefore, hdefine, ?_, hsame⟩)
        simp [find?_insert]
    · exact ⟨arity, by simp [arity?_insert hown, arityDefining?, hname, harity], hfits⟩

theorem Covers.declare {e : Expr} (h : lib.Covers loose e)
    (hloose : ∀ name, lib.Reshapes d name → loose name) : (lib.declare d).Covers loose e :=
  fun call hcall => (h call hcall).declare hloose

theorem Closed.declare (h : lib.Closed loose) (hloose : ∀ name, lib.Reshapes d name → loose name) :
    (lib.declare d).Closed loose := by
  cases hdefine : lib.define d.signature d.body with
  | error e =>
    rw [declare_of_error hdefine]
    exact h
  | ok defined =>
    obtain ⟨own, lib'⟩ := defined
    have hold : ∀ {e}, lib.Covers loose e → lib'.Covers loose e := by
      intro e he
      rw [← declare_of_ok hdefine]
      exact he.declare hloose
    rw [declare_of_ok hdefine]
    obtain ⟨f, rfl, hown, hknows⟩ := define_eq_ok hdefine
    have hnew : (lib.insert own f).Covers loose f.body := by
      intro call hcall
      exact ⟨call.2, by rw [arity?_insert hown]; exact hknows call hcall, .inl rfl⟩
    constructor
    · intro name g hg
      rw [find?_insert] at hg
      split at hg
      · rename_i hname
        exact hname ▸ hown
      · exact h.not_builtin hg
    · intro name g hg
      rw [find?_insert] at hg
      split at hg
      · cases hg
        exact hnew
      · exact hold (h.covers hg)

theorem Covers.declareAll {e : Expr} (ds : List Declaration) (h : lib.Covers loose e)
    (hloose : ∀ name, lib.Reshaped ds name → loose name) : (lib.declareAll ds).Covers loose e := by
  induction ds generalizing lib with
  | nil => exact h
  | cons d ds ih =>
    exact ih (h.declare fun name hn => hloose name (.inl hn)) fun name hn => hloose name (.inr hn)

theorem Closed.declareAll (ds : List Declaration) (h : lib.Closed loose)
    (hloose : ∀ name, lib.Reshaped ds name → loose name) : (lib.declareAll ds).Closed loose := by
  induction ds generalizing lib with
  | nil => exact h
  | cons d ds ih =>
    exact ih (h.declare fun name hn => hloose name (.inl hn)) fun name hn => hloose name (.inr hn)

end Library

/-! ## Evaluation -/

/-- The errors that the evaluation of a checked formula may end in. -/
inductive Error.Allowed (loose : String → Prop) : Error → Prop where
  | undefinedVariable (name : String) : Allowed loose (.undefinedVariable name)
  | callsTooDeep : Allowed loose .callsTooDeep
  | arity {name : String} (expected got : Nat) : loose name → Allowed loose (.arity name expected got)

/-- A result that is a value or an allowed error. -/
def Sane {α : Type} (loose : String → Prop) (r : Except Error α) : Prop :=
  ∀ e, r = .error e → e.Allowed loose

theorem sane_ok {α : Type} (loose : String → Prop) (a : α) : Sane loose (.ok a : Except Error α) := by
  intro e h
  cases h

theorem sane_error {α : Type} {loose : String → Prop} {e : Error} (h : e.Allowed loose) :
    Sane loose (.error e : Except Error α) := by
  rintro _ ⟨⟩
  exact h

section Trees

variable {loose : String → Prop} {var : String → Except Error Float}
  {call : String → List Float → Except Error Float}

theorem length_evalAllWith {es : List Expr} {xs : List Float}
    (h : Expr.evalAllWith var call es = .ok xs) : xs.length = es.length := by
  induction es generalizing xs with
  | nil =>
    simp only [Expr.evalAllWith] at h
    cases h
    rfl
  | cons e es ih =>
    simp only [Expr.evalAllWith] at h
    split at h
    · cases h
    · split at h
      · cases h
      · rename_i xs' hxs
        cases h
        simp [ih hxs]

mutual

theorem sane_evalWith (hvar : ∀ name, Sane loose (var name)) : ∀ e : Expr,
    (∀ c ∈ e.calls, ∀ xs : List Float, xs.length = c.2 → Sane loose (call c.1 xs)) →
    Sane loose (e.evalWith var call)
  | .num value, _ => by
    rw [Expr.evalWith]
    exact sane_ok loose value
  | .var name, _ => by
    rw [Expr.evalWith]
    exact hvar name
  | .unary op operand, hcalls => by
    have ih := sane_evalWith hvar operand hcalls
    rw [Expr.evalWith]
    split
    · rename_i e he
      exact sane_error (ih e he)
    · exact sane_ok loose _
  | .binary op left right, hcalls => by
    rw [Expr.calls, List.forall_mem_append] at hcalls
    have ihl := sane_evalWith hvar left hcalls.1
    have ihr := sane_evalWith hvar right hcalls.2
    rw [Expr.evalWith]
    split
    · rename_i e he
      exact sane_error (ihl e he)
    · split
      · exact sane_ok loose _
      · split
        · rename_i e he
          exact sane_error (ihr e he)
        · exact sane_ok loose _
  | .call name args, hcalls => by
    rw [Expr.calls, List.forall_mem_append, List.forall_mem_singleton] at hcalls
    have ih := sane_evalAllWith hvar args hcalls.1
    rw [Expr.evalWith]
    split
    · rename_i e he
      exact sane_error (ih e he)
    · rename_i xs hxs
      exact hcalls.2 xs (length_evalAllWith hxs)

theorem sane_evalAllWith (hvar : ∀ name, Sane loose (var name)) : ∀ es : List Expr,
    (∀ c ∈ Expr.callsAll es, ∀ xs : List Float, xs.length = c.2 → Sane loose (call c.1 xs)) →
    Sane loose (Expr.evalAllWith var call es)
  | [], _ => by
    rw [Expr.evalAllWith]
    exact sane_ok loose _
  | e :: es, hcalls => by
    rw [Expr.callsAll, List.forall_mem_append] at hcalls
    have ih := sane_evalWith hvar e hcalls.1
    have ihs := sane_evalAllWith hvar es hcalls.2
    rw [Expr.evalAllWith]
    split
    · rename_i e he
      exact sane_error (ih e he)
    · split
      · rename_i e he
        exact sane_error (ihs e he)
      · exact sane_ok loose _

end

end Trees

theorem Builtin.value?_isSome {f : Builtin} {xs : List Float} (h : f.arity = xs.length) :
    ∃ x, f.value? xs = some x := by
  rcases xs with _ | ⟨a, _ | ⟨b, _ | ⟨c, xs⟩⟩⟩ <;> cases f <;> simp_all [arity, value?]

namespace Library

variable {lib : Library} {loose : String → Prop}

theorem sane_valueOf {call : String → List Float → Except Error Float} (hlib : lib.Closed loose)
    (hcall : ∀ name xs, lib.Fits loose name xs.length → Sane loose (call name xs)) (vars : Scope)
    (name : String) : Sane loose (lib.valueOf call vars name) := by
  unfold valueOf
  split
  · exact sane_ok loose _
  · split
    · exact sane_ok loose _
    · split
      · rename_i f hf
        split
        · rename_i hempty
          refine hcall name [] ⟨0, ?_, .inl rfl⟩
          rw [arity?_eq_of_not_builtin (hlib.not_builtin hf), hf]
          simp [Function.arity, List.isEmpty_iff.1 hempty]
        · exact sane_error (.undefinedVariable name)
      · exact sane_error (.undefinedVariable name)

theorem sane_callWith {enter : Function → List Float → Except Error Float}
    (henter : ∀ name f xs, lib.find? name = some f → Sane loose (enter f xs)) {name : String}
    {xs : List Float} (h : lib.Fits loose name xs.length) : Sane loose (lib.callWith enter name xs) := by
  obtain ⟨arity, harity, hfits⟩ := h
  unfold callWith
  unfold arity? at harity
  split
  · rename_i f hf
    rw [hf] at harity
    cases harity
    split
    · exact sane_ok loose _
    · rename_i hvalue
      refine sane_error (.arity _ _ (hfits.resolve_left ?_))
      intro hlength
      obtain ⟨x, hx⟩ := Builtin.value?_isSome hlength
      rw [hvalue] at hx
      cases hx
  · rename_i hbuiltin
    simp only [hbuiltin] at harity
    split
    · rename_i hnone
      rw [hnone] at harity
      cases harity
    · rename_i f hf
      rw [hf] at harity
      cases harity
      split
      · exact henter name f xs hf
      · rename_i hlength
        exact sane_error (.arity _ _ (hfits.resolve_left hlength))

/-- Calls that fit are sane, however deep they may nest. -/
theorem sane_callAt (hlib : lib.Closed loose) (room : Nat) :
    ∀ name xs, lib.Fits loose name xs.length → Sane loose (lib.callAt room name xs) := by
  induction room with
  | zero =>
    intro name xs h
    refine sane_callWith ?_ h
    exact fun _ _ _ _ => sane_error .callsTooDeep
  | succ room ih =>
    intro name xs h
    refine sane_callWith ?_ h
    intro name f xs hf
    refine sane_evalWith (sane_valueOf hlib ih _) f.body ?_
    intro c hc ys hys
    exact ih c.1 ys (hys ▸ hlib.covers hf c hc)

theorem sane_eval (hlib : lib.Closed loose) {e : Expr} (he : lib.Covers loose e) (vars : Scope) :
    Sane loose (lib.eval vars e) := by
  refine sane_evalWith (sane_valueOf hlib (sane_callAt hlib _) vars) e ?_
  intro c hc xs hxs
  exact sane_callAt hlib _ c.1 xs (hxs ▸ he c hc)

/-! ## Checked formulas -/

theorem declareAll_append (lib : Library) (ds es : List Declaration) :
    lib.declareAll (ds ++ es) = (lib.declareAll ds).declareAll es :=
  List.foldl_append

theorem reshaped_append {lib : Library} {ds es : List Declaration} {name : String} :
    lib.Reshaped (ds ++ es) name ↔ lib.Reshaped ds name ∨ (lib.declareAll ds).Reshaped es name := by
  induction ds generalizing lib with
  | nil => simp [Reshaped, declareAll]
  | cons d ds ih => simp [Reshaped, declareAll, ih, or_assoc]

theorem Reshaped.not_builtin {lib : Library} {ds : List Declaration} {name : String}
    (h : lib.Reshaped ds name) : Builtin.ofName? name = none := by
  induction ds generalizing lib with
  | nil => cases h
  | cons d ds ih =>
    rcases h with ⟨f, g, lib', -, hdefine, -⟩ | h
    · obtain ⟨_, -, hname, -⟩ := define_eq_ok hdefine
      exact hname
    · exact ih h

theorem knows_of_read {lib : Library} {source : String} {e : Expr} (h : lib.read source = .ok e) :
    lib.Knows none e := by
  unfold read Expr.ofText at h
  split at h
  · cases h
  · exact passes_iff_knows.1 (expression_of_ofTokens h).2

end Library

/-- A formula that was read after some definitions evaluates, after any further definitions, to a value
or ends in one of three errors. A wrong number of arguments is one of them only for a defined function
whose name was given another number of parameters. -/
theorem eval_of_read (earlier later : List Declaration) {source : String} {e : Expr}
    (h : (Library.empty.declareAll earlier).read source = .ok e) (vars : Scope) :
    (∃ x, (Library.empty.declareAll (earlier ++ later)).eval vars e = .ok x) ∨
    (∃ name, (Library.empty.declareAll (earlier ++ later)).eval vars e =
      .error (.undefinedVariable name)) ∨
    (Library.empty.declareAll (earlier ++ later)).eval vars e = .error .callsTooDeep ∨
    ∃ name expected got,
      (Library.empty.declareAll (earlier ++ later)).eval vars e = .error (.arity name expected got) ∧
      Library.empty.Reshaped (earlier ++ later) name ∧ Builtin.ofName? name = none := by
  have hclosed : (Library.empty.declareAll (earlier ++ later)).Closed
      (Library.empty.Reshaped (earlier ++ later)) :=
    (Library.closed_empty _).declareAll (earlier ++ later) fun _ => id
  have hcovers : (Library.empty.declareAll (earlier ++ later)).Covers
      (Library.empty.Reshaped (earlier ++ later)) e := by
    rw [Library.declareAll_append]
    refine (Library.knows_of_read h).covers.declareAll later ?_
    exact fun name hn => Library.reshaped_append.2 (.inr hn)
  have hsane := Library.sane_eval hclosed hcovers vars
  cases heval : (Library.empty.declareAll (earlier ++ later)).eval vars e with
  | ok x => exact .inl ⟨x, rfl⟩
  | error err =>
    right
    cases hsane err heval with
    | undefinedVariable name => exact .inl ⟨name, rfl⟩
    | callsTooDeep => exact .inr (.inl rfl)
    | @arity name expected got hname =>
      exact .inr (.inr ⟨name, expected, got, rfl, hname, hname.not_builtin⟩)

/-- A function `f` of one parameter, `g` that calls it, and then `f` of two parameters: what `g(x)` meant
when it was read is gone. -/
theorem eval_of_read_reshaped :
    (Library.empty.declareAll [⟨"f(x)", "x"⟩, ⟨"g(y)", "f(y)"⟩]).read "g(x)" =
      .ok (.call "g" [.var "x"]) ∧
    (Library.empty.declareAll [⟨"f(x)", "x"⟩, ⟨"g(y)", "f(y)"⟩, ⟨"f(a, b)", "a"⟩]).eval
      (fun _ => some 1) (.call "g" [.var "x"]) = .error (.arity "f" 2 1) ∧
    Library.empty.Reshaped [⟨"f(x)", "x"⟩, ⟨"g(y)", "f(y)"⟩, ⟨"f(a, b)", "a"⟩] "f" := by
  have hread : (Library.empty.declareAll [⟨"f(x)", "x"⟩, ⟨"g(y)", "f(y)"⟩]).read "g(x)" =
      .ok (.call "g" [.var "x"]) := rfl
  have heval : (Library.empty.declareAll [⟨"f(x)", "x"⟩, ⟨"g(y)", "f(y)"⟩, ⟨"f(a, b)", "a"⟩]).eval
      (fun _ => some 1) (.call "g" [.var "x"]) = .error (.arity "f" 2 1) := rfl
  have hresult := eval_of_read [⟨"f(x)", "x"⟩, ⟨"g(y)", "f(y)"⟩] [⟨"f(a, b)", "a"⟩] hread fun _ => some 1
  simp only [List.cons_append, List.nil_append, heval] at hresult
  rcases hresult with ⟨x, hx⟩ | ⟨name, hname⟩ | hdeep | ⟨name, expected, got, harity, hreshaped, -⟩
  · cases hx
  · cases hname
  · cases hdeep
  · cases harity
    exact ⟨hread, heval, hreshaped⟩

end Formula
end TurtleGraphics
