import TurtleGraphics.Proofs.Statements

/-!
# TurtleGraphics.Proofs.Guards

Of the guarded statements of a body, the first whose guard holds is run, and those behind it might as well
not be there. `executeNoting` carries out a body as `execute` does (`outcome_executeNoting`) and notes at
which guards it looks and which bodies it enters. It enters the body of the first guard that holds in the
state reached there (`entered_iff`), and that is the last guard it looks at (`pairwise_looks`).

A body is carried out statement after statement as long as no guard holds (`execute_cons`), and after one
has held the guarded statements are passed over (`execute_fired`).
-/

namespace TurtleGraphics

open Program (Statement Mark)

/-! ## Guarded statements -/

namespace Program.Statement

def isGuarded : Statement → Bool
  | when _ _ _ => true
  | _ => false

/-- Whether a statement is guarded and its guard holds in a state: it has a value, which is neither zero,
of either sign, nor NaN. -/
def holds (cx : Context) (m : Machine) : Statement → Bool
  | when mark guard _ =>
    match m.evalFormula cx mark.line guard with
    | .ok x => !(x == 0) && !x.isNaN
    | .error _ => false
  | _ => false

theorem holds_when {cx : Context} {m : Machine} {mark : Mark} {guard : String} {x : Float}
    (h : m.evalFormula cx mark.line guard = .ok x) (inside : List Statement) :
    (when mark guard inside).holds cx m = Formula.isTrue x := by
  rw [holds, h]
  rfl

theorem holds_of_not_isGuarded {s : Statement} (h : s.isGuarded = false) (cx : Context) (m : Machine) :
    s.holds cx m = false := by
  cases s with
  | when mark guard inside => cases h
  | _ => rfl

theorem eq_when_of_holds {s : Statement} {cx : Context} {m : Machine} (h : s.holds cx m = true) :
    ∃ mark guard inside x, s = .when mark guard inside ∧
      m.evalFormula cx mark.line guard = .ok x ∧ Formula.isTrue x = true := by
  cases s with
  | when mark guard inside =>
    cases hx : m.evalFormula cx mark.line guard with
    | ok x => exact ⟨mark, guard, inside, x, rfl, hx, (holds_when hx inside).symm.trans h⟩
    | error f =>
      rw [holds, hx] at h
      cases h
  | _ => cases h

/-- The statement without what it guards. -/
def hollow : Statement → Statement
  | when mark guard _ => when mark guard []
  | s => s

theorem holds_hollow (s : Statement) (cx : Context) (m : Machine) :
    s.hollow.holds cx m = s.holds cx m := by
  cases s <;> rfl

end Program.Statement

/-! ## Bodies without a guard that holds -/

section Bodies

variable {body : BodyRunner} {cx : Context}

/-- A statement is carried out before those behind it, unless it is a guarded one whose guard holds. -/
theorem execute_cons {fired : Bool} {s : Statement} {m : Machine}
    (h : fired = false → s.holds cx m = false) (rest : List Statement) :
    execute body cx fired (s :: rest) m =
      (execute body cx fired [s] m).andThen (execute body cx fired rest) := by
  cases s with
  | empty mark => rfl
  | define mark name params statements => rfl
  | loop mark count statements =>
    rw [execute_loop, execute_loop]
    cases m.evalFormula cx mark.line count with
    | error f => rfl
    | ok x =>
      dsimp only [Outcome.given]
      cases runLoop body cx statements x m <;> rfl
  | when mark guard statements =>
    cases fired with
    | true =>
      rw [execute_when_fired, execute_when_fired]
      rfl
    | false =>
      have h := h rfl
      rw [execute_when, execute_when]
      cases hx : m.evalFormula cx mark.line guard with
      | error f => rfl
      | ok x =>
        rw [Statement.holds_when hx] at h
        simp only [Outcome.given, h]
        rfl
  | call mark name args =>
    rw [execute_call, execute_call]
    cases m.call body cx mark name args <;> rfl

theorem execute_of_not_isGuarded {s : Statement} (h : s.isGuarded = false) (fired : Bool) (m : Machine) :
    execute body cx fired [s] m = execute body cx false [s] m := by
  cases s with
  | when mark guard inside => cases h
  | _ => simp [execute]

theorem execute_hollow {s : Statement} {m : Machine} (h : s.holds cx m = false) :
    execute body cx false [s.hollow] m = execute body cx false [s] m := by
  cases s with
  | when mark guard inside =>
    rw [Statement.hollow, execute_when, execute_when]
    cases hx : m.evalFormula cx mark.line guard with
    | error f => rfl
    | ok x =>
      rw [Statement.holds_when hx] at h
      simp only [Outcome.given, h]
      rfl
  | _ => rfl

/-- The statements other than guarded ones. -/
def unguarded (statements : List Statement) : List Statement :=
  statements.filter fun s => !s.isGuarded

theorem unguarded_unguarded (statements : List Statement) :
    unguarded (unguarded statements) = unguarded statements := by
  rw [unguarded, unguarded, List.filter_filter]
  simp only [Bool.and_self]

/-- After a guard has held, a body is carried out as if it had no guarded statements. -/
theorem execute_fired (fired : Bool) (statements : List Statement) (m : Machine) :
    execute body cx true statements m = execute body cx fired (unguarded statements) m := by
  induction statements generalizing m with
  | nil => rfl
  | cons s rest ih =>
    cases hs : s.isGuarded with
    | true =>
      have hpassed : execute body cx true [s] m = .done m := by
        cases s with
        | when mark guard inside => exact execute_when_fired ..
        | _ => cases hs
      rw [execute_cons (by simp), hpassed, unguarded, List.filter_cons_of_neg (by simp [hs])]
      exact ih m
    | false =>
      have hnot := s.holds_of_not_isGuarded hs cx m
      rw [unguarded, List.filter_cons_of_pos (by simp [hs]), execute_cons (by simp) rest,
        execute_cons (fun _ => hnot) (rest.filter _), execute_of_not_isGuarded hs true,
        execute_of_not_isGuarded hs fired]
      exact congrArg _ (funext ih)

end Bodies

/-! ## Looks at guards -/

/-- A guard that was evaluated: the place of its statement in the body, and whether the body of the
statement was then entered. -/
structure Look where
  place : Nat
  entered : Bool
  deriving DecidableEq, Repr

/-- The same look, from one statement further up. -/
def Look.later (look : Look) : Look :=
  { look with place := look.place + 1 }

/-- One look comes before another: it does not enter a body, and it is at a statement further up. -/
def Look.Before (look next : Look) : Prop :=
  look.entered = false ∧ look.place < next.place

/-- What a body comes to, and the guards that were evaluated. -/
structure Account where
  outcome : Outcome
  looks : List Look

/-- Goes on behind the first statement, which has an outcome and perhaps a look of its own. -/
def Account.goOn (looks : List Look) (o : Outcome) (next : Machine → Account) : Account :=
  match o with
  | .done m => ⟨(next m).outcome, looks ++ (next m).looks.map Look.later⟩
  | .fault f m => ⟨.fault f m, looks⟩

/-- Carries out the statements of a body and notes the guards that are evaluated. -/
def executeNoting (body : BodyRunner) (cx : Context) : Bool → List Statement → Machine → Account
  | _, [], m => ⟨.done m, []⟩
  | fired, .when mark guard statements :: rest, m =>
    if fired then .goOn [] (.done m) (executeNoting body cx true rest)
    else
      match m.evalFormula cx mark.line guard with
      | .error f => ⟨.fault f m, [⟨0, false⟩]⟩
      | .ok x =>
        if Formula.isTrue x then
          .goOn [⟨0, true⟩] (body statements cx m) (executeNoting body cx true rest)
        else .goOn [⟨0, false⟩] (.done m) (executeNoting body cx false rest)
  | fired, s :: rest, m => .goOn [] (execute body cx fired [s] m) (executeNoting body cx fired rest)

section Looks

variable {body : BodyRunner} {cx : Context}

theorem Account.outcome_goOn (looks : List Look) (o : Outcome) (next : Machine → Account) :
    (Account.goOn looks o next).outcome = o.andThen fun m => (next m).outcome := by
  cases o <;> rfl

theorem executeNoting_of_holds {s : Statement} {m : Machine} (h : s.holds cx m = true)
    (rest : List Statement) :
    ∃ inside, execute body cx false (s :: rest) m =
        (body inside cx m).andThen (execute body cx true rest) ∧
      executeNoting body cx false (s :: rest) m =
        .goOn [⟨0, true⟩] (body inside cx m) (executeNoting body cx true rest) := by
  obtain ⟨mark, guard, inside, x, rfl, hx, htrue⟩ := Statement.eq_when_of_holds h
  refine ⟨inside, ?_, ?_⟩
  · rw [execute_when, hx]
    exact if_pos htrue
  · simp [executeNoting, hx, htrue]

/-- The look at a statement that is passed over or carried out. -/
def lookAt (fired : Bool) (s : Statement) : List Look :=
  if s.isGuarded && !fired then [⟨0, false⟩] else []

theorem eq_of_mem_lookAt {fired : Bool} {s : Statement} {look : Look} (h : look ∈ lookAt fired s) :
    look = ⟨0, false⟩ := by
  unfold lookAt at h
  split at h
  · exact List.mem_singleton.1 h
  · cases h

theorem executeNoting_of_not_holds {fired : Bool} {s : Statement} {m : Machine}
    (h : fired = false → s.holds cx m = false) (rest : List Statement) :
    executeNoting body cx fired (s :: rest) m =
      .goOn (lookAt fired s) (execute body cx fired [s] m) (executeNoting body cx fired rest) := by
  cases s with
  | when mark guard inside =>
    cases fired with
    | true => simp [executeNoting, execute, lookAt, Statement.isGuarded]
    | false =>
      have h := h rfl
      cases hx : m.evalFormula cx mark.line guard with
      | error f => simp [executeNoting, execute, lookAt, Statement.isGuarded, hx, Account.goOn]
      | ok x =>
        rw [Statement.holds_when hx] at h
        simp [executeNoting, execute, lookAt, Statement.isGuarded, hx, h]
  | _ => simp [executeNoting, lookAt, Statement.isGuarded]

/-- Noting guards changes nothing. -/
theorem outcome_executeNoting (fired : Bool) (statements : List Statement) (m : Machine) :
    (executeNoting body cx fired statements m).outcome = execute body cx fired statements m := by
  induction statements generalizing fired m with
  | nil => rfl
  | cons s rest ih =>
    by_cases hpassed : fired = false → s.holds cx m = false
    · rw [executeNoting_of_not_holds hpassed rest, execute_cons hpassed rest, Account.outcome_goOn]
      exact congrArg _ (funext (ih fired))
    · obtain ⟨rfl, hholds⟩ : fired = false ∧ s.holds cx m = true := by simpa using hpassed
      obtain ⟨inside, hexecute, hnoting⟩ := @executeNoting_of_holds body cx s m hholds rest
      rw [hexecute, hnoting, Account.outcome_goOn]
      exact congrArg _ (funext (ih true))

theorem looks_fired (statements : List Statement) (m : Machine) :
    (executeNoting body cx true statements m).looks = [] := by
  induction statements generalizing m with
  | nil => rfl
  | cons s rest ih =>
    rw [executeNoting_of_not_holds (by simp)]
    cases execute body cx true [s] m with
    | done m' => simp [Account.goOn, lookAt, ih]
    | fault f m' => simp [Account.goOn, lookAt]

theorem looks_of_holds {s : Statement} {m : Machine} (h : s.holds cx m = true) (rest : List Statement) :
    (executeNoting body cx false (s :: rest) m).looks = [⟨0, true⟩] := by
  obtain ⟨inside, -, hnoting⟩ := @executeNoting_of_holds body cx s m h rest
  rw [hnoting]
  cases body inside cx m with
  | done m' => simp [Account.goOn, looks_fired]
  | fault f m' => rfl

theorem looks_of_not_holds {s : Statement} {m : Machine} (h : s.holds cx m = false)
    (rest : List Statement) :
    (executeNoting body cx false (s :: rest) m).looks =
      lookAt false s ++
        match execute body cx false [s] m with
        | .done m' => (executeNoting body cx false rest m').looks.map Look.later
        | .fault _ _ => [] := by
  rw [executeNoting_of_not_holds fun _ => h]
  cases execute body cx false [s] m with
  | done m' => rfl
  | fault f m' => exact (List.append_nil _).symm

theorem mem_map_later {looks : List Look} {i : Nat} {entered : Bool} :
    ⟨i + 1, entered⟩ ∈ looks.map Look.later ↔ ⟨i, entered⟩ ∈ looks := by
  rw [List.mem_map]
  refine ⟨?_, fun h => ⟨_, h, rfl⟩⟩
  rintro ⟨⟨place, _⟩, hlook, heq⟩
  cases heq
  exact hlook

/-- Guards are evaluated from left to right, up to the first whose body is entered. -/
theorem pairwise_looks (statements : List Statement) (m : Machine) :
    (executeNoting body cx false statements m).looks.Pairwise Look.Before := by
  induction statements generalizing m with
  | nil => exact .nil
  | cons s rest ih =>
    cases hs : s.holds cx m with
    | true =>
      rw [looks_of_holds hs]
      exact List.pairwise_singleton _ _
    | false =>
      rw [looks_of_not_holds hs, List.pairwise_append]
      refine ⟨?_, ?_, ?_⟩
      · unfold lookAt
        split
        · exact List.pairwise_singleton _ _
        · exact .nil
      · cases execute body cx false [s] m with
        | done m' => exact (ih m').map _ fun look next h => ⟨h.1, Nat.succ_lt_succ h.2⟩
        | fault f m' => exact .nil
      · intro look hlook next hnext
        obtain rfl := eq_of_mem_lookAt hlook
        cases hstep : execute body cx false [s] m with
        | done m' =>
          rw [hstep] at hnext
          obtain ⟨before, -, rfl⟩ := List.mem_map.1 hnext
          exact ⟨rfl, Nat.succ_pos _⟩
        | fault f m' =>
          rw [hstep] at hnext
          cases hnext

/-! ## The first guard that holds -/

/-- Whether the statement at a place is guarded and its guard holds in the state that the statements in
front of it lead to. -/
def guardHolds (body : BodyRunner) (cx : Context) (statements : List Statement) (m : Machine)
    (i : Nat) : Bool :=
  match statements[i]?, execute body cx false (statements.take i) m with
  | some s, .done m' => s.holds cx m'
  | _, _ => false

/-- The guard at a place holds, and none in front of it does. -/
def FirstGuard (body : BodyRunner) (cx : Context) (statements : List Statement) (m : Machine)
    (i : Nat) : Prop :=
  guardHolds body cx statements m i = true ∧ ∀ j < i, guardHolds body cx statements m j = false

theorem guardHolds_zero (s : Statement) (rest : List Statement) (m : Machine) :
    guardHolds body cx (s :: rest) m 0 = s.holds cx m :=
  rfl

theorem guardHolds_succ {s : Statement} {m : Machine} (h : s.holds cx m = false)
    (rest : List Statement) (i : Nat) :
    guardHolds body cx (s :: rest) m (i + 1) =
      match execute body cx false [s] m with
      | .done m' => guardHolds body cx rest m' i
      | .fault _ _ => false := by
  rw [guardHolds, List.getElem?_cons_succ, List.take_succ_cons, execute_cons fun _ => h]
  cases execute body cx false [s] m with
  | done m' => rfl
  | fault f m' => cases rest[i]? <;> rfl

theorem guardHolds_of_done {s : Statement} {m m' : Machine} (h : s.holds cx m = false)
    (hstep : execute body cx false [s] m = .done m') (rest : List Statement) (i : Nat) :
    guardHolds body cx (s :: rest) m (i + 1) = guardHolds body cx rest m' i := by
  rw [guardHolds_succ h, hstep]

theorem firstGuard_succ {s : Statement} {m : Machine} (h : s.holds cx m = false)
    (rest : List Statement) (i : Nat) :
    FirstGuard body cx (s :: rest) m (i + 1) ↔
      ∃ m', execute body cx false [s] m = .done m' ∧ FirstGuard body cx rest m' i := by
  unfold FirstGuard
  rw [guardHolds_succ h]
  cases hstep : execute body cx false [s] m with
  | fault f m' => simp
  | done m' =>
    simp only [Outcome.done.injEq, exists_eq_left']
    refine and_congr_right fun _ => ⟨fun hfront j hj => ?_, fun hfront j hj => ?_⟩
    · rw [← guardHolds_of_done h hstep]
      exact hfront (j + 1) (Nat.succ_lt_succ hj)
    · cases j with
      | zero => exact h
      | succ j =>
        rw [guardHolds_of_done h hstep]
        exact hfront j (Nat.lt_of_succ_lt_succ hj)

/-- The body that is entered is that of the first guard that holds. -/
theorem entered_iff (statements : List Statement) (m : Machine) (i : Nat) :
    ⟨i, true⟩ ∈ (executeNoting body cx false statements m).looks ↔
      FirstGuard body cx statements m i := by
  induction statements generalizing m i with
  | nil => simp [executeNoting, FirstGuard, guardHolds]
  | cons s rest ih =>
    cases hs : s.holds cx m with
    | true =>
      rw [looks_of_holds hs, List.mem_singleton]
      refine ⟨fun hi => ?_, fun hi => ?_⟩
      · cases hi
        exact ⟨hs, fun j hj => absurd hj (Nat.not_lt_zero j)⟩
      · cases i with
        | zero => rfl
        | succ i =>
          have hfront := hi.2 0 (Nat.succ_pos i)
          rw [guardHolds_zero, hs] at hfront
          cases hfront
    | false =>
      -- the body of the first statement is not entered, so the place is further down
      have hown : ⟨i, true⟩ ∉ lookAt false s := by
        intro h
        cases eq_of_mem_lookAt h
      rw [looks_of_not_holds hs, List.mem_append, or_iff_right hown]
      cases i with
      | zero =>
        have hzero : ¬FirstGuard body cx (s :: rest) m 0 := by
          intro h
          rw [FirstGuard, guardHolds_zero, hs] at h
          cases h.1
        refine iff_of_false ?_ hzero
        cases execute body cx false [s] m with
        | done m' => simp [Look.later]
        | fault f m' => simp
      | succ i =>
        rw [firstGuard_succ hs]
        cases execute body cx false [s] m with
        | fault f m' => simp
        | done m' =>
          simp only [Outcome.done.injEq, exists_eq_left', ← ih]
          exact mem_map_later

/-- As long as no guard of the statements in front holds, they are a step of their own. -/
theorem execute_append_of_guards {front : List Statement} {m : Machine}
    (h : ∀ j < front.length, guardHolds body cx front m j = false) (tail : List Statement) :
    execute body cx false (front ++ tail) m =
      (execute body cx false front m).andThen (execute body cx false tail) := by
  induction front generalizing m with
  | nil => rfl
  | cons s rest ih =>
    have hs : s.holds cx m = false := h 0 (Nat.succ_pos _)
    rw [List.cons_append, execute_cons fun _ => hs, execute_cons (fun _ => hs) rest,
      Outcome.andThen_assoc]
    cases hstep : execute body cx false [s] m with
    | fault f m' => rfl
    | done m' =>
      refine ih fun j hj => ?_
      rw [← guardHolds_of_done hs hstep]
      exact h (j + 1) (Nat.succ_lt_succ hj)

/-- As long as no guard holds, it does not matter what the guarded statements have inside. -/
theorem execute_hollow_front {statements : List Statement} {m : Machine} {i : Nat}
    (h : ∀ j < i, guardHolds body cx statements m j = false) :
    execute body cx false ((statements.take i).map Statement.hollow ++ statements.drop i) m =
      execute body cx false statements m := by
  induction statements generalizing m i with
  | nil => simp
  | cons s rest ih =>
    cases i with
    | zero => rfl
    | succ i =>
      have hs : s.holds cx m = false := h 0 (Nat.succ_pos _)
      have hhollow : s.hollow.holds cx m = false := (s.holds_hollow cx m).trans hs
      rw [List.take_succ_cons, List.map_cons, List.drop_succ_cons, List.cons_append,
        execute_cons fun _ => hhollow, execute_hollow hs, execute_cons (fun _ => hs) rest]
      cases hstep : execute body cx false [s] m with
      | fault f m' => rfl
      | done m' =>
        refine ih fun j hj => ?_
        rw [← guardHolds_of_done hs hstep]
        exact h (j + 1) (Nat.succ_lt_succ hj)

/-- Up to the first guard that holds, a body is run without entering a guarded body; then it enters that
one, and it goes on as if there were no guarded statements. -/
theorem FirstGuard.execute_eq {statements : List Statement} {m : Machine} {i : Nat}
    (h : FirstGuard body cx statements m i) :
    ∃ mark guard inside m' x, statements[i]? = some (.when mark guard inside) ∧
      execute body cx false (statements.take i) m = .done m' ∧
      m'.evalFormula cx mark.line guard = .ok x ∧ (x == 0) = false ∧ x.isNaN = false ∧
      ∀ fired tail, execute body cx false (statements.take (i + 1) ++ tail) m =
        (body inside cx m').andThen (execute body cx fired (unguarded tail)) := by
  obtain ⟨hholds, hfront⟩ := h
  have htake : ∀ j < (statements.take i).length,
      guardHolds body cx (statements.take i) m j = false := by
    intro j hj
    have hj : j < i := Nat.lt_of_lt_of_le hj (List.length_take_le _ _)
    rw [← hfront j hj, guardHolds, guardHolds, List.getElem?_take_of_lt hj, List.take_take,
      Nat.min_eq_left (Nat.le_of_lt hj)]
  rw [guardHolds] at hholds
  split at hholds
  case h_1 s m' hs hdone =>
    obtain ⟨mark, guard, inside, x, rfl, hx, htrue⟩ := Statement.eq_when_of_holds hholds
    obtain ⟨hzero, hnan⟩ : (x == 0) = false ∧ x.isNaN = false := by
      simpa [Formula.isTrue, bne] using htrue
    refine ⟨mark, guard, inside, m', x, hs, hdone, hx, hzero, hnan, fun fired tail => ?_⟩
    rw [List.take_add_one, hs, List.append_assoc, execute_append_of_guards htake, hdone]
    dsimp only [Outcome.andThen, Option.toList, List.cons_append, List.nil_append]
    rw [execute_when, hx, Outcome.given, if_pos htrue]
    exact congrArg _ (funext (execute_fired fired tail))
  case h_2 => cases hholds

/-- An entered guard is the last one looked at. -/
theorem place_le_of_entered {looks : List Look} (hpairs : looks.Pairwise Look.Before) {i : Nat}
    (h : ⟨i, true⟩ ∈ looks) : ∀ look ∈ looks, look.place ≤ i := by
  intro look hlook
  obtain ⟨front, back, rfl⟩ := List.append_of_mem h
  obtain ⟨-, hback, hfront⟩ := List.pairwise_append.1 hpairs
  rcases List.mem_append.1 hlook with hmem | hmem
  · exact Nat.le_of_lt (hfront look hmem _ (List.mem_cons_self ..)).2
  · rcases List.mem_cons.1 hmem with rfl | hmem
    · exact Nat.le_refl _
    · cases (List.rel_of_pairwise_cons hback hmem).1

/-- No two bodies are entered. -/
theorem length_entered_le_one {looks : List Look} (hpairs : looks.Pairwise Look.Before) :
    (looks.filter Look.entered).length ≤ 1 := by
  have hentered : ∀ look ∈ looks.filter Look.entered, look.entered = true := fun look h =>
    (List.mem_filter.1 h).2
  have hpairs := hpairs.filter Look.entered
  match hlooks : looks.filter Look.entered with
  | [] => exact Nat.zero_le 1
  | [_] => exact Nat.le_refl 1
  | look :: next :: _ =>
    rw [hlooks] at hpairs hentered
    have hfalse := (List.rel_of_pairwise_cons hpairs (List.mem_cons_self ..)).1
    rw [hentered look (List.mem_cons_self ..)] at hfalse
    cases hfalse

end Looks

/-- Of the guarded statements of a body at most one is run: the first whose guard, in the state reached
there, is neither zero nor NaN. What the guarded statements in front of it have inside does not matter, no
guard behind it is evaluated, and the body comes to what it would come to without the guarded statements
behind it. -/
theorem execute_first_guard (body : BodyRunner) (cx : Context) (statements : List Statement)
    (m : Machine) :
    (executeNoting body cx false statements m).outcome = execute body cx false statements m ∧
      ((executeNoting body cx false statements m).looks.filter Look.entered).length ≤ 1 ∧
      (∀ i, ⟨i, true⟩ ∈ (executeNoting body cx false statements m).looks ↔
        FirstGuard body cx statements m i) ∧
      (∀ i, (∀ j < i, guardHolds body cx statements m j = false) →
        execute body cx false ((statements.take i).map Statement.hollow ++ statements.drop i) m =
          execute body cx false statements m) ∧
      ∀ i, FirstGuard body cx statements m i →
        (∀ look ∈ (executeNoting body cx false statements m).looks, look.place ≤ i) ∧
        (∃ mark guard inside m' x, statements[i]? = some (.when mark guard inside) ∧
          execute body cx false (statements.take i) m = .done m' ∧
          m'.evalFormula cx mark.line guard = .ok x ∧ (x == 0) = false ∧ x.isNaN = false ∧
          execute body cx false statements m =
            (body inside cx m').andThen
              (execute body cx false (unguarded (statements.drop (i + 1))))) ∧
        execute body cx false statements m =
          execute body cx false (statements.take (i + 1) ++ unguarded (statements.drop (i + 1))) m := by
  have hpairs := @pairwise_looks body cx statements m
  refine ⟨outcome_executeNoting false statements m, length_entered_le_one hpairs,
    entered_iff statements m, fun i hi => execute_hollow_front hi, fun i hi => ⟨?_, ?_⟩⟩
  · exact place_le_of_entered hpairs ((entered_iff statements m i).2 hi)
  · obtain ⟨mark, guard, inside, m', x, hs, hfront, hx, hzero, hnan, hexecute⟩ := hi.execute_eq
    have hwhole := hexecute false (statements.drop (i + 1))
    rw [List.take_append_drop] at hwhole
    refine ⟨⟨mark, guard, inside, m', x, hs, hfront, hx, hzero, hnan, hwhole⟩, ?_⟩
    rw [hwhole, hexecute false, unguarded_unguarded]

/-- A body with a guard that does not hold, two that do and one that cannot be evaluated. -/
def guardedBody : List Statement :=
  [.when ⟨1, none⟩ "0" [.call ⟨2, none⟩ "fw" ["1"]],
    .when ⟨4, none⟩ "1" [.call ⟨5, none⟩ "fw" ["2"]],
    .call ⟨7, none⟩ "fw" ["3"],
    .when ⟨8, none⟩ "2" [.call ⟨9, none⟩ "fw" ["4"]],
    .when ⟨11, none⟩ "nosuch" []]

theorem execute_first_guard_guardedBody :
    FirstGuard (runBody 1) .root guardedBody (Machine.new {} .zeros) 1 ∧
      execute (runBody 1) .root false guardedBody (Machine.new {} .zeros) =
        execute (runBody 1) .root false (guardedBody.take 3) (Machine.new {} .zeros) := by
  have hfirst : FirstGuard (runBody 1) .root guardedBody (Machine.new {} .zeros) 1 := by
    unfold FirstGuard
    decide +kernel
  exact ⟨hfirst, ((execute_first_guard _ _ _ _).2.2.2.2 1 hfirst).2.2⟩

end TurtleGraphics
