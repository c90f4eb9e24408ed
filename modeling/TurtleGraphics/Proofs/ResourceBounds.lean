import TurtleGraphics.Proofs.Stepping

/-!
# TurtleGraphics.Proofs.ResourceBounds

Every run stays within its bounds at every moment: calls and bodies nest only so deep, and the counters
of commands and of calls inside calls are at most what some limit in force so far allowed
(`run_within_bounds`).

`Moment.Move` says once what a step can do, and the bounds are read off from it: what a step does to the
counters and limits (`Machine.Spends`), and that it keeps frames and counter in order
(`Moment.Within`).
-/

namespace TurtleGraphics

open Program (Statement)

/-! ## Commands

A command that has been counted changes no counter, and sets no depth above the ceiling. -/

structure Machine.Uncounted (m m' : Machine) : Prop where
  commands : m'.commands = m.commands
  recursions : m'.recursions = m.recursions
  depth : m.limits.maxDepth ≤ Limits.depthCeiling → m'.limits.maxDepth ≤ Limits.depthCeiling

theorem Machine.Uncounted.refl (m : Machine) : m.Uncounted m :=
  ⟨rfl, rfl, id⟩

theorem Machine.Uncounted.trans {a b c : Machine} (hab : a.Uncounted b) (hbc : b.Uncounted c) :
    a.Uncounted c :=
  ⟨hbc.commands.trans hab.commands, hbc.recursions.trans hab.recursions, hbc.depth ∘ hab.depth⟩

theorem Machine.uncounted_mapScene (m : Machine) (f : Scene → Scene) :
    m.Uncounted (m.mapScene f) :=
  ⟨rfl, rfl, id⟩

def Outcome.fault? : Outcome → Option Fault
  | done _ => none
  | fault f _ => some f

/-- The faults of a command that has been counted are about its arguments. -/
inductive Outcome.Uncounted (m : Machine) : Outcome → Prop where
  | done {m' : Machine} : m.Uncounted m' → Uncounted m (.done m')
  | fault {m' : Machine} {f : Fault} : m.Uncounted m' → f.kind = .semantic →
      Uncounted m (.fault f m')

/-- A computation that fails only because of what its input means. -/
def Semantic {α : Type} (r : Except Fault α) : Prop :=
  ∀ f, r = .error f → f.kind = .semantic

theorem semantic_ok {α : Type} (a : α) : Semantic (.ok a : Except Fault α) := by
  intro f h
  cases h

theorem semantic_error {α : Type} {f : Fault} (h : f.kind = .semantic) :
    Semantic (.error f : Except Fault α) := by
  rintro _ ⟨⟩
  exact h

theorem Outcome.Uncounted.given {α : Type} {m m' : Machine} {r : Except Fault α}
    {next : α → Outcome} (hm : m.Uncounted m') (hr : Semantic r)
    (hnext : ∀ a, (next a).Uncounted m) : (given m' r next).Uncounted m := by
  cases r with
  | error f => exact .fault hm (hr f rfl)
  | ok a => exact hnext a

namespace Invocation

variable (c : Invocation)

theorem semantic_number? (i : Nat) : Semantic (c.number? i) := by
  unfold number?
  split
  · exact semantic_ok _
  · exact semantic_ok _
  · exact semantic_error rfl

theorem semantic_number (i : Nat) : Semantic (c.number i) := by
  unfold number
  have h := c.semantic_number? i
  cases hn : c.number? i with
  | error f => exact semantic_error (h f hn)
  | ok x =>
    cases x with
    | none => exact semantic_error rfl
    | some x => exact semantic_ok x

theorem semantic_count? (i : Nat) : Semantic (c.count? i) := by
  unfold count?
  have h := c.semantic_number? i
  cases hn : c.number? i with
  | error f => exact semantic_error (h f hn)
  | ok x => exact semantic_ok _

theorem semantic_point (current : Vector3) : Semantic (c.point current) := by
  unfold point
  cases hx : c.number 0 with
  | error f => exact semantic_error (c.semantic_number 0 f hx)
  | ok x =>
    cases hy : c.number 1 with
    | error f => exact semantic_error (c.semantic_number 1 f hy)
    | ok y =>
      cases hz : c.number? 2 with
      | error f => exact semantic_error (c.semantic_number? 2 f hz)
      | ok z => exact semantic_ok _

theorem semantic_color (stream : Keystream) : Semantic (c.color stream) := by
  unfold color
  split
  · exact semantic_error rfl
  · exact semantic_ok _
  · split
    · exact semantic_ok _
    · split
      · exact semantic_ok _
      · exact semantic_error rfl

theorem semantic_lettering (defaultSize : Float) : Semantic (c.lettering defaultSize) := by
  unfold lettering
  split
  · exact semantic_error rfl
  · cases hsize : c.number? 1 with
    | error f => exact semantic_error (c.semantic_number? 1 f hsize)
    | ok size => exact semantic_ok _

theorem semantic_gridding (config : Config) : Semantic (c.gridding config) := by
  unfold gridding
  cases hsize : c.number? 0 with
  | error f => exact semantic_error (c.semantic_number? 0 f hsize)
  | ok size =>
    cases hdivisions : c.count? 1 with
    | error f => exact semantic_error (c.semantic_count? 1 f hdivisions)
    | ok divisions => exact semantic_ok _

end Invocation

namespace Command

variable (c : Invocation) (m : Machine)

theorem uncounted_byNumber (f : Float → Scene → Scene) : (byNumber c m f).Uncounted m :=
  .given (.refl m) (c.semantic_number 0) fun x => .done (m.uncounted_mapScene (f x))

theorem uncounted_byPoint (f : Vector3 → Scene → Scene) : (byPoint c m f).Uncounted m :=
  .given (.refl m) (c.semantic_point _) fun target => .done (m.uncounted_mapScene (f target))

/-- A change of limits that sets no depth above the ceiling. -/
def KeepsCeiling (f : Nat → Limits → Limits) : Prop :=
  ∀ n l, l.maxDepth ≤ Limits.depthCeiling → (f n l).maxDepth ≤ Limits.depthCeiling

theorem keepsCeiling_withDepth : KeepsCeiling fun n l => l.withDepth n :=
  fun n _ _ => Nat.min_le_right n Limits.depthCeiling

theorem keepsCeiling_withRecursions : KeepsCeiling fun n l => l.withRecursions n :=
  fun _ _ h => h

theorem keepsCeiling_withCommands : KeepsCeiling fun n l => l.withCommands n :=
  fun _ _ h => h

theorem uncounted_byCount {f : Nat → Limits → Limits} (hf : KeepsCeiling f) :
    (byCount c m f).Uncounted m :=
  .given (.refl m) (c.semantic_count? 0) fun _ => .done ⟨rfl, rfl, hf _ m.limits⟩

theorem uncounted_setIfGiven {f : Nat → Limits → Limits} (hf : KeepsCeiling f) (n : Option Nat) :
    m.Uncounted (setIfGiven m n f) := by
  cases n with
  | none => exact .refl m
  | some n => exact ⟨rfl, rfl, hf n m.limits⟩

theorem uncounted_setLimits : (setLimits c m).Uncounted m := by
  refine .given (.refl m) (c.semantic_count? 0) fun commands => ?_
  have hcommands := uncounted_setIfGiven m keepsCeiling_withCommands commands
  refine .given hcommands (c.semantic_count? 1) fun recursions => ?_
  have hrecursions := hcommands.trans
    (uncounted_setIfGiven _ keepsCeiling_withRecursions recursions)
  refine .given hrecursions (c.semantic_count? 2) fun depth => ?_
  exact .done (hrecursions.trans (uncounted_setIfGiven _ keepsCeiling_withDepth depth))

theorem uncounted_act (command : Command) : (command.act c m).Uncounted m := by
  cases command with
  | forward => exact uncounted_byNumber c m _
  | back => exact uncounted_byNumber c m _
  | left => exact uncounted_byNumber c m _
  | right => exact uncounted_byNumber c m _
  | pitch => exact uncounted_byNumber c m _
  | roll => exact uncounted_byNumber c m _
  | jump => exact uncounted_byNumber c m _
  | goto => exact uncounted_byPoint c m _
  | jumpTo => exact uncounted_byPoint c m _
  | faceTo => exact uncounted_byPoint c m _
  | home => exact .done (m.uncounted_mapScene _)
  | penUp => exact .done (m.uncounted_mapScene _)
  | penDown => exact .done (m.uncounted_mapScene _)
  | hide => exact .done (m.uncounted_mapScene _)
  | reveal =>
    have hshown := m.uncounted_mapScene fun s => s.mapTurtle fun t => { t with visible := true }
    exact .given hshown (c.semantic_number? 0) fun _ =>
      .done (hshown.trans (Machine.uncounted_mapScene _ _))
  | label => exact .given (.refl m) (c.semantic_lettering _) fun _ => .done (m.uncounted_mapScene _)
  | grid => exact .given (.refl m) (c.semantic_gridding _) fun _ => .done (m.uncounted_mapScene _)
  | fill => exact .done (m.uncounted_mapScene _)
  | wait => exact uncounted_byNumber c m _
  | erase => exact .done (m.uncounted_mapScene _)
  | color => exact .given (.refl m) (c.semantic_color _) fun _ => .done ⟨rfl, rfl, id⟩
  | thickness => exact uncounted_byNumber c m _
  | limitCommand => exact uncounted_byCount c m keepsCeiling_withCommands
  | limitRecurse => exact uncounted_byCount c m keepsCeiling_withRecursions
  | limitDepth => exact uncounted_byCount c m keepsCeiling_withDepth
  | limits => exact uncounted_setLimits c m

end Command

/-! ## Steps -/

/-- What the first statement of a body can come to when no body is entered for it. -/
inductive Machine.Settles (m : Machine) : Outcome → Prop where
  | passed : Settles m (.done m)
  | refused (f : Fault) : Settles m (.fault f m)
  | procedure (name : String) (p : Procedure) : Settles m (.done (m.defineProcedure name p))
  | function (line : Nat) (keyword : String) (args : List String) :
      Settles m (m.defineFunction line keyword args)
  | command (command : Command) (c : Invocation) : Settles m (command.run c m)

namespace Moment

/-- What a step can do. -/
inductive Move : Moment → Moment → Prop where
  | leaveBody {cx fired rest frames nesting o} :
      Move ⟨.body cx fired rest :: frames, nesting, o⟩ ⟨frames, nesting - 1, o⟩
  | leaveLoop {cx statements left frames nesting o} :
      Move ⟨.loop cx statements left :: frames, nesting, o⟩ ⟨frames, nesting, o⟩
  | settle {cx fired statement rest frames nesting m o} : m.Settles o →
      Move ⟨.body cx fired (statement :: rest) :: frames, nesting, .done m⟩
        ⟨.body cx fired rest :: frames, nesting, o⟩
  | startLoop {cx fired statement rest frames nesting m} (statements left) :
      Move ⟨.body cx fired (statement :: rest) :: frames, nesting, .done m⟩
        ⟨.loop cx statements left :: .body cx fired rest :: frames, nesting, .done m⟩
  | goRound {cx statements left frames nesting m} :
      Move ⟨.loop cx statements (left + 1) :: frames, nesting, .done m⟩
        (enter (.loop cx statements left :: frames) nesting cx statements m)
  | guarded {cx fired statement rest frames nesting m} (statements) :
      Move ⟨.body cx fired (statement :: rest) :: frames, nesting, .done m⟩
        (enter (.body cx true rest :: frames) nesting cx statements m)
  | called {cx fired statement rest frames nesting m line inner m'} (statements) :
      m.admitCall line inner.depth = .ok m' →
      Move ⟨.body cx fired (statement :: rest) :: frames, nesting, .done m⟩
        (enter (.body cx fired rest :: frames) nesting inner statements m')

end Moment

open Moment

/-- What a call comes to before any body is run. -/
inductive CallStart.From (m : Machine) : CallStart → Prop where
  | ended {o : Outcome} : m.Settles o → From m (.ended o)
  | into {line : Nat} {inner : Context} {m' : Machine} (statements : List Statement) :
      m.admitCall line inner.depth = .ok m' → From m (.into statements inner m')

theorem Machine.from_beginCall (m : Machine) (cx : Context) (mark : Program.Mark) (name : String)
    (args : List String) : (m.beginCall cx mark name args).From m := by
  unfold beginCall
  split
  · exact .ended (.function mark.line name args)
  · cases m.argumentValues cx mark.line args with
    | error f => exact .ended (.refused f)
    | ok values =>
      cases m.target cx mark.line name with
      | error f => exact .ended (.refused f)
      | ok target =>
        cases target with
        | command c => exact .ended (.command c _)
        | procedure p =>
          dsimp only
          split
          · exact .ended (.refused _)
          · next hadmit => exact .into p.body hadmit

theorem Moment.move_perform (frames : List Frame) (nesting : Nat) (cx : Context) (fired : Bool)
    (rest : List Statement) (m : Machine) (statement : Statement) :
    Move ⟨.body cx fired (statement :: rest) :: frames, nesting, .done m⟩
      (perform frames nesting cx fired rest m statement) := by
  cases statement with
  | empty mark => exact .settle .passed
  | define mark name params statements => exact .settle (.procedure name _)
  | loop mark count statements =>
    rw [perform]
    cases m.evalFormula cx mark.line count with
    | error f => exact .settle (.refused f)
    | ok x =>
      dsimp only
      split
      · exact .settle .passed
      · exact .startLoop statements (loopCount x)
  | when mark guard statements =>
    rw [perform]
    cases fired with
    | true => exact .settle .passed
    | false =>
      cases m.evalFormula cx mark.line guard with
      | error f => exact .settle (.refused f)
      | ok x =>
        dsimp only
        split
        · contradiction
        · split
          · exact .guarded statements
          · exact .settle .passed
  | call mark name args =>
    rw [perform]
    have hstart := m.from_beginCall cx mark name args
    cases hbegin : m.beginCall cx mark name args with
    | ended o =>
      rw [hbegin] at hstart
      cases hstart with
      | ended h => exact .settle h
    | into statements inner m' =>
      rw [hbegin] at hstart
      cases hstart with
      | into _ h => exact .called statements h

theorem Moment.move_of_step {s t : Moment} (h : s.step = some t) : s.Move t := by
  unfold step at h
  split at h <;> cases h
  · exact .leaveBody
  · exact .leaveBody
  · exact move_perform ..
  · exact .leaveLoop
  · exact .leaveLoop
  · exact .goRound

/-! ## Counters and limits -/

/-- What a step does to the counters and to the limit on depth. -/
structure Machine.Spends (m m' : Machine) : Prop where
  commands : m'.commands = m.commands ∨ m'.commands ≤ m.limits.maxCommands
  recursions : m'.recursions = m.recursions ∨ m'.recursions ≤ m.limits.maxRecursions
  depth : m.limits.maxDepth ≤ Limits.depthCeiling → m'.limits.maxDepth ≤ Limits.depthCeiling

namespace Machine

theorem Spends.refl (m : Machine) : m.Spends m :=
  ⟨.inl rfl, .inl rfl, id⟩

theorem defineFunction_cases (m : Machine) (line : Nat) (keyword : String) (args : List String) :
    (∃ f, m.defineFunction line keyword args = .fault f m) ∨
      ∃ library, m.defineFunction line keyword args = .done { m with library := library } := by
  simp only [defineFunction]
  split
  · exact .inl ⟨_, rfl⟩
  · split
    · exact .inl ⟨_, rfl⟩
    · exact .inr ⟨_, rfl⟩

theorem spends_defineFunction (m : Machine) (line : Nat) (keyword : String) (args : List String) :
    m.Spends (m.defineFunction line keyword args).machine := by
  rcases m.defineFunction_cases line keyword args with ⟨f, h⟩ | ⟨library, h⟩
  · rw [h]
    exact .refl m
  · rw [h]
    exact ⟨.inl rfl, .inl rfl, id⟩

end Machine

theorem Outcome.Uncounted.semantic {m : Machine} {o : Outcome} {f : Fault} (h : o.Uncounted m)
    (hf : o.fault? = some f) : f.kind = .semantic := by
  cases h with
  | done _ => cases hf
  | fault _ hsemantic =>
    cases hf
    exact hsemantic

theorem Outcome.Uncounted.machine {m : Machine} {o : Outcome} (h : o.Uncounted m) :
    m.Uncounted o.machine := by
  cases h <;> assumption

theorem Command.spends_run (command : Command) (c : Invocation) (m : Machine) :
    m.Spends (command.run c m).machine := by
  unfold Command.run
  split
  · exact .refl m
  · next hbudget =>
    have hact := (uncounted_act c { m with commands := m.commands + 1 } command).machine
    exact ⟨.inr (by rw [hact.commands]; exact Nat.lt_of_not_le hbudget), .inl hact.recursions,
      hact.depth⟩

theorem Machine.spends_settles {m : Machine} {o : Outcome} (h : m.Settles o) :
    m.Spends o.machine := by
  cases h with
  | passed => exact .refl m
  | refused f => exact .refl m
  | procedure name p => exact ⟨.inl rfl, .inl rfl, id⟩
  | function line keyword args => exact m.spends_defineFunction line keyword args
  | command command c => exact command.spends_run c m

/-- An admitted call is inside the limit on depth. -/
theorem Machine.spends_admitCall {m m' : Machine} {line depth : Nat}
    (h : m.admitCall line depth = .ok m') : m.Spends m' ∧ depth ≤ m.limits.maxDepth := by
  unfold admitCall at h
  split at h
  · cases h
  · next hdepth =>
    refine ⟨?_, Nat.le_of_not_lt hdepth⟩
    split at h
    · cases h
      exact .refl m
    · split at h
      · cases h
      · next hbudget =>
        cases h
        exact ⟨.inl rfl, .inr (Nat.lt_of_not_le hbudget), id⟩

namespace Moment

theorem machine_enter (frames : List Frame) (nesting : Nat) (cx : Context)
    (statements : List Statement) (m : Machine) :
    (enter frames nesting cx statements m).machine = m := by
  unfold enter
  split <;> rfl

theorem Move.spends {s t : Moment} (h : s.Move t) : s.machine.Spends t.machine := by
  cases h with
  | leaveBody => exact .refl _
  | leaveLoop => exact .refl _
  | settle h => exact Machine.spends_settles h
  | startLoop => exact .refl _
  | goRound => rw [machine_enter]; exact .refl _
  | guarded => rw [machine_enter]; exact .refl _
  | called statements h => rw [machine_enter]; exact (Machine.spends_admitCall h).1

/-! ## Frames -/

/-- Depths are within their bounds, and the counter is the number of bodies under way. -/
structure Within (s : Moment) : Prop where
  maxDepth : s.machine.limits.maxDepth ≤ Limits.depthCeiling
  depths : ∀ frame ∈ s.frames, frame.context.depth ≤ Limits.depthCeiling
  counted : s.nesting = s.frames.countP Frame.isBody
  nesting : s.nesting ≤ maxBodyNesting

namespace Within

variable {frame : Frame} {frames : List Frame} {nesting : Nat} {o : Outcome}

theorem pop (h : Within ⟨frame :: frames, nesting, o⟩) :
    Within ⟨frames, nesting - if frame.isBody then 1 else 0, o⟩ := by
  have hcounted := h.counted
  have hnesting := h.nesting
  simp only [List.countP_cons] at hcounted hnesting
  exact ⟨h.maxDepth, (List.forall_mem_cons.1 h.depths).2, by dsimp only; omega, by dsimp only; omega⟩

/-- The bounds depend on the context of a frame and on its kind only. -/
theorem replace (h : Within ⟨frame :: frames, nesting, o⟩) (frame' : Frame) (o' : Outcome)
    (hcontext : frame'.context = frame.context) (hkind : frame'.isBody = frame.isBody)
    (hmax : o'.machine.limits.maxDepth ≤ Limits.depthCeiling) :
    Within ⟨frame' :: frames, nesting, o'⟩ := by
  obtain ⟨hdepth, hdepths⟩ := List.forall_mem_cons.1 h.depths
  refine ⟨hmax, List.forall_mem_cons.2 ⟨hcontext ▸ hdepth, hdepths⟩, ?_, h.nesting⟩
  have hcounted := h.counted
  simp only [List.countP_cons, hkind] at hcounted ⊢
  exact hcounted

theorem startLoop (h : Within ⟨frame :: frames, nesting, o⟩) (statements : List Statement)
    (left : Nat) : Within ⟨.loop frame.context statements left :: frame :: frames, nesting, o⟩ := by
  have hdepth := (List.forall_mem_cons.1 h.depths).1
  refine ⟨h.maxDepth, List.forall_mem_cons.2 ⟨hdepth, h.depths⟩, ?_, h.nesting⟩
  rw [List.countP_cons_of_neg (by simp [Frame.isBody])]
  exact h.counted

theorem enter {cx : Context} {m : Machine} (h : Within ⟨frames, nesting, .done m⟩)
    (hcx : cx.depth ≤ Limits.depthCeiling) (statements : List Statement) :
    (enter frames nesting cx statements m).Within := by
  unfold Moment.enter
  split
  · exact ⟨h.maxDepth, h.depths, h.counted, h.nesting⟩
  · next hroom =>
    refine ⟨h.maxDepth, List.forall_mem_cons.2 ⟨hcx, h.depths⟩, ?_, Nat.lt_of_not_le hroom⟩
    rw [List.countP_cons_of_pos rfl, ← h.counted]

theorem move {s t : Moment} (h : s.Within) (hst : s.Move t) : t.Within := by
  have hmax := hst.spends.depth h.maxDepth
  cases hst with
  | leaveBody => exact h.pop
  | leaveLoop => exact h.pop
  | settle _ => exact h.replace _ _ rfl rfl hmax
  | @startLoop cx fired _ rest _ _ m statements left =>
    exact (h.replace (.body cx fired rest) (.done m) rfl rfl hmax).startLoop statements left
  | @goRound cx statements left _ _ m =>
    have hcx : cx.depth ≤ Limits.depthCeiling := (List.forall_mem_cons.1 h.depths).1
    exact (h.replace (.loop cx statements left) (.done m) rfl rfl h.maxDepth).enter hcx statements
  | @guarded cx _ _ rest _ _ m statements =>
    have hcx : cx.depth ≤ Limits.depthCeiling := (List.forall_mem_cons.1 h.depths).1
    exact (h.replace (.body cx true rest) (.done m) rfl rfl h.maxDepth).enter hcx statements
  | @called cx fired _ rest _ _ m line inner m' statements hadmit =>
    rw [machine_enter] at hmax
    have hinner : inner.depth ≤ Limits.depthCeiling :=
      Nat.le_trans (Machine.spends_admitCall hadmit).2 h.maxDepth
    exact (h.replace (.body cx fired rest) (.done m') rfl rfl hmax).enter hinner statements

end Within

theorem within_firstMoment (m : Machine) (source : String) : (m.firstMoment source).Within := by
  have hmax : m.reset.limits.maxDepth ≤ Limits.depthCeiling := Nat.min_le_right _ _
  unfold Machine.firstMoment
  cases Program.parse source with
  | error f => exact ⟨hmax, by simp, rfl, Nat.zero_le _⟩
  | ok program =>
    have hstart : Within ⟨[], 0, .done m.reset⟩ := ⟨hmax, by simp, rfl, Nat.zero_le _⟩
    exact hstart.enter (Nat.zero_le _) program

/-- What every step preserves holds after any number of steps. -/
theorem invariant {P : Moment → Prop} (hstep : ∀ {s t}, s.Move t → P s → P t) {first s : Moment}
    {i : Nat} (hfirst : P first) (h : first.steps i = some s) : P s := by
  induction i generalizing s with
  | zero =>
    cases h
    exact hfirst
  | succ i ih =>
    rw [steps_succ] at h
    obtain ⟨r, hr, hrs⟩ := Option.bind_eq_some_iff.1 h
    exact hstep (move_of_step hrs) (ih hr)

/-- A counter that goes up only as far as a limit in force allows is at most a limit that was in force
earlier. -/
theorem counter_le_limit (counter limit : Machine → Nat)
    (hmove : ∀ {s t : Moment}, s.Move t →
      counter t.machine = counter s.machine ∨ counter t.machine ≤ limit s.machine)
    {first s : Moment} {i : Nat} (hfirst : counter first.machine = 0)
    (h : first.steps i = some s) :
    ∃ j ≤ i, ∃ t, first.steps j = some t ∧ counter s.machine ≤ limit t.machine := by
  induction i generalizing s with
  | zero =>
    cases h
    exact ⟨0, Nat.le_refl 0, first, rfl, hfirst ▸ Nat.zero_le _⟩
  | succ i ih =>
    rw [steps_succ] at h
    obtain ⟨r, hr, hrs⟩ := Option.bind_eq_some_iff.1 h
    rcases hmove (move_of_step hrs) with hsame | hle
    · obtain ⟨j, hj, t, ht, hle⟩ := ih hr
      exact ⟨j, Nat.le_succ_of_le hj, t, ht, hsame ▸ hle⟩
    · exact ⟨i, Nat.le_succ i, r, hr, hle⟩

end Moment

/-! ## Refusals -/

/-- A fault for which a budget is to blame: that of commands, of calls inside calls, or of depth. -/
def Fault.IsRefusal (f : Fault) : Prop :=
  f.code = ⟨.resource, 1⟩ ∨ f.code = ⟨.resource, 2⟩ ∨ ∃ limit, f.cause = .depthLimit limit

theorem Fault.IsRefusal.kind {f : Fault} (h : f.IsRefusal) : f.kind = .resource := by
  unfold Fault.kind
  rcases h with h | h | ⟨limit, h⟩
  · rw [h]; rfl
  · rw [h]; rfl
  · rw [Fault.code, h]; rfl

theorem not_isRefusal_bodiesTooDeep (line : Nat) : ¬ Fault.IsRefusal ⟨line, .bodiesTooDeep⟩ := by
  simp [Fault.IsRefusal, Fault.code, Cause.code]

theorem Machine.defineFunction_fault {m : Machine} {line : Nat} {keyword : String}
    {args : List String} {f : Fault} (hf : (m.defineFunction line keyword args).fault? = some f) :
    (m.defineFunction line keyword args).machine = m := by
  rcases m.defineFunction_cases line keyword args with ⟨g, h⟩ | ⟨library, h⟩
  · rw [h]
    rfl
  · rw [h] at hf
    cases hf

theorem Command.run_refused {command : Command} {c : Invocation} {m : Machine} {f : Fault}
    (h : (command.run c m).fault? = some f) (hf : f.IsRefusal) : (command.run c m).machine = m := by
  unfold Command.run at h ⊢
  split
  · rfl
  · next hbudget =>
    -- once it is counted, a command fails because of its arguments only
    rw [if_neg hbudget] at h
    have hsemantic := (uncounted_act c { m with commands := m.commands + 1 } command).semantic h
    simp [hf.kind] at hsemantic

theorem Moment.enter_not_refused {frames : List Frame} {nesting : Nat} {cx : Context}
    {statements : List Statement} {m : Machine} {f : Fault}
    (h : (enter frames nesting cx statements m).outcome.fault? = some f) : ¬ f.IsRefusal := by
  unfold enter at h
  split at h
  · cases h
    exact not_isRefusal_bodiesTooDeep _
  · cases h

/-- A refusal leaves everything as it is. -/
theorem Moment.Move.refused {s t : Moment} (h : s.Move t) {f : Fault}
    (ht : t.outcome.fault? = some f) (hf : f.IsRefusal) : t.machine = s.machine := by
  cases h with
  | leaveBody => rfl
  | leaveLoop => rfl
  | settle h =>
    cases h with
    | passed => rfl
    | refused g => rfl
    | procedure name p => cases ht
    | function line keyword args => exact Machine.defineFunction_fault ht
    | command command c => exact Command.run_refused ht hf
  | startLoop statements left => rfl
  | goRound => exact absurd hf (enter_not_refused ht)
  | guarded statements => exact absurd hf (enter_not_refused ht)
  | called statements hadmit => exact absurd hf (enter_not_refused ht)

/-! ## Runs -/

theorem Moment.machine_firstMoment (m : Machine) (source : String) :
    (m.firstMoment source).machine = m.reset := by
  unfold Machine.firstMoment
  cases Program.parse source with
  | error f => rfl
  | ok program => exact machine_enter ..

/-- At every moment of every run calls and bodies nest only so deep, and what is counted is at most what
a limit in force so far allowed. A refusal changes nothing. Every body that is entered is left with the
counter as it was, so that no body is under way at the end, and the run gives what its steps came
to. -/
theorem run_within_bounds (m : Machine) (source : String) :
    (∀ i s, (m.firstMoment source).steps i = some s →
      s.machine.limits.maxDepth ≤ 1000 ∧
      (∀ frame ∈ s.frames, frame.context.depth ≤ 1000) ∧
      s.nesting = s.frames.countP Frame.isBody ∧ s.nesting ≤ 2048 ∧
      (∃ j ≤ i, ∃ t, (m.firstMoment source).steps j = some t ∧
        s.machine.commands ≤ t.machine.limits.maxCommands) ∧
      (∃ j ≤ i, ∃ t, (m.firstMoment source).steps j = some t ∧
        s.machine.recursions ≤ t.machine.limits.maxRecursions)) ∧
    (∀ (s t : Moment) (f : Fault), s.step = some t → t.outcome.fault? = some f → f.IsRefusal →
      t.machine = s.machine) ∧
    (∀ frames nesting cx statements before, nesting ≤ 2048 →
      (enter frames nesting cx statements before).Leads
        ⟨frames, nesting, runBody (2048 - nesting) statements cx before⟩) ∧
    ∃ o report, (m.firstMoment source).Leads ⟨[], 0, o⟩ ∧
      m.run source = (o.result, { o.machine.mapScene Scene.finish with report := report }) := by
  refine ⟨fun i s hs => ?_, ?_, ?_, leads_run m source⟩
  · have hwithin := invariant (fun hmove h => h.move hmove) (within_firstMoment m source) hs
    have hstart := machine_firstMoment m source
    refine ⟨hwithin.maxDepth, hwithin.depths, hwithin.counted, hwithin.nesting, ?_, ?_⟩
    · exact counter_le_limit Machine.commands (·.limits.maxCommands)
        (fun hmove => hmove.spends.commands) (by rw [hstart]; rfl) hs
    · exact counter_le_limit Machine.recursions (·.limits.maxRecursions)
        (fun hmove => hmove.spends.recursions) (by rw [hstart]; rfl) hs
  · intro s t f hstep ht hf
    exact (move_of_step hstep).refused ht hf
  · intro frames nesting cx statements before hnesting
    exact leads_runBody (Nat.add_sub_cancel' hnesting) frames statements cx before

/-- A procedure that calls itself, where calls may not nest: the second call is refused, inside two
bodies. -/
theorem run_within_bounds_refused_call :
    ∃ s t, ((Machine.new { limits := ⟨1, 0, 2⟩ } .zeros).firstMoment "draw f do\n f\nend\nf").steps 2 =
        some s ∧
      s.nesting = 2 ∧ s.nesting = s.frames.countP Frame.isBody ∧ s.outcome.fault? = none ∧
      s.step = some t ∧ t.outcome.fault? = some ⟨2, .depthLimit 1⟩ ∧ t.machine = s.machine := by
  have hrun : ((((Machine.new { limits := ⟨1, 0, 2⟩ } .zeros).firstMoment
      "draw f do\n f\nend\nf").steps 2).bind fun s => s.step.map fun t =>
        (s.nesting, s.outcome.fault?, t.outcome.fault?)) =
      some (2, none, some ⟨2, .depthLimit 1⟩) := by
    decide +kernel
  obtain ⟨s, hs, hmap⟩ := Option.bind_eq_some_iff.1 hrun
  obtain ⟨t, ht, heq⟩ := Option.map_eq_some_iff.1 hmap
  obtain ⟨hnesting, hbefore, hafter⟩ : s.nesting = 2 ∧ s.outcome.fault? = none ∧
      t.outcome.fault? = some ⟨2, .depthLimit 1⟩ := by simpa using heq
  have hbounds := run_within_bounds (.new { limits := ⟨1, 0, 2⟩ } .zeros) "draw f do\n f\nend\nf"
  exact ⟨s, t, hs, hnesting, (hbounds.1 2 s hs).2.2.1, hbefore, ht, hafter,
    hbounds.2.1 s t _ ht hafter (.inr (.inr ⟨1, rfl⟩))⟩

end TurtleGraphics
