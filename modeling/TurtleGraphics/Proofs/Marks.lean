import TurtleGraphics.Proofs.BlockGrammar
import TurtleGraphics.Proofs.ResourceBounds

/-!
# TurtleGraphics.Proofs.Marks

Where statements stand and what comments say has no influence on a drawing. Two bodies of the same shape
differ in the marks of their statements only. Run from states that are equal, except that the procedures
they know may differ in this way too, they stay equal in this sense step by step (`Machine.Alike`); if
one faults, so does the other, for the same cause and at a line of its own (`Outcome.Alike`).

A definition stores a part of the tree, so that marks find their way into the state. This is why states
are compared up to the marks in their procedures.
-/

namespace TurtleGraphics

open Program (Statement Mark)
open Program.Statement (sameShape sameShapes)

/-! ## Shapes -/

namespace Program.Statement

/-- Statements that differ in their marks, and in the marks inside them, at most. -/
inductive Twins : Statement → Statement → Prop where
  | empty (k k' : Mark) : Twins (.empty k) (.empty k')
  | call (k k' : Mark) (name : String) (args : List String) :
      Twins (.call k name args) (.call k' name args)
  | loop (k k' : Mark) (count : String) {body body' : List Statement} :
      sameShapes body body' = true → Twins (.loop k count body) (.loop k' count body')
  | when (k k' : Mark) (guard : String) {body body' : List Statement} :
      sameShapes body body' = true → Twins (.when k guard body) (.when k' guard body')
  | define (k k' : Mark) (name : String) (params : List String) {body body' : List Statement} :
      sameShapes body body' = true → Twins (.define k name params body) (.define k' name params body')

theorem twins_of_sameShape {s t : Statement} (h : sameShape s t = true) : Twins s t := by
  cases s <;> cases t <;> simp only [sameShape, Bool.and_eq_true, beq_iff_eq, Bool.false_eq_true] at h
  · exact .empty _ _
  · obtain ⟨rfl, rfl⟩ := h
    exact .call _ _ _ _
  · obtain ⟨rfl, hbody⟩ := h
    exact .loop _ _ _ hbody
  · obtain ⟨rfl, hbody⟩ := h
    exact .when _ _ _ hbody
  · obtain ⟨⟨rfl, rfl⟩, hbody⟩ := h
    exact .define _ _ _ _ hbody

theorem Twins.isEmpty_eq {s t : Statement} (h : Twins s t) : t.isEmpty = s.isEmpty := by
  cases h <;> rfl

theorem sameShapes_nil {again : List Statement} (h : sameShapes [] again = true) : again = [] := by
  cases again with
  | nil => rfl
  | cons s rest => simp [sameShapes] at h

theorem all_isEmpty_of_sameShapes {a b : List Statement} (h : sameShapes a b = true) :
    b.all isEmpty = a.all isEmpty := by
  induction a generalizing b with
  | nil =>
    rw [sameShapes_nil h]
  | cons s rest ih =>
    obtain ⟨t, rest', rfl, hs, hrest⟩ := sameShapes_cons h
    rw [List.all_cons, List.all_cons, (twins_of_sameShape hs).isEmpty_eq, ih hrest]

end Program.Statement

open Program.Statement (sameShapes_cons sameShapes_nil twins_of_sameShape all_isEmpty_of_sameShapes)

/-! ## States and outcomes -/

/-- The bodies are of the same shape. -/
def Procedure.Alike (p q : Procedure) : Prop :=
  p.params = q.params ∧ sameShapes p.body q.body = true

/-- The states are equal but for the marks in their procedures. -/
def Machine.Alike (m m' : Machine) : Prop :=
  ∃ procedures, m' = { m with procedures := procedures } ∧
    ∀ name : String, Option.Rel Procedure.Alike m.procedures[name]? procedures[name]?

/-- The outcomes are the same but for the marks in procedures and the line of a fault. -/
inductive Outcome.Alike : Outcome → Outcome → Prop where
  | done {m m' : Machine} : m.Alike m' → Alike (.done m) (.done m')
  | fault {m m' : Machine} {f g : Fault} : f.cause = g.cause → m.Alike m' →
      Alike (.fault f m) (.fault g m')

/-- The readings fail for the same cause, or give results that are related. -/
inductive ReadAlike {α : Type} (R : α → α → Prop) : Except Fault α → Except Fault α → Prop where
  | error {f g : Fault} : f.cause = g.cause → ReadAlike R (.error f) (.error g)
  | ok {a b : α} : R a b → ReadAlike R (.ok a) (.ok b)

/-- The targets are the same but for the marks in a procedure. -/
inductive Target.Alike : Target → Target → Prop where
  | procedure {p q : Procedure} : p.Alike q → Alike (.procedure p) (.procedure q)
  | command (c : Command) : Alike (.command c) (.command c)

namespace Outcome.Alike

theorem andThen {o o' : Outcome} {next next' : Machine → Outcome} (ho : o.Alike o')
    (hnext : ∀ {m m'}, m.Alike m' → (next m).Alike (next' m')) :
    (o.andThen next).Alike (o'.andThen next') := by
  cases ho with
  | done h => exact hnext h
  | fault hcause h => exact .fault hcause h

theorem machine {o o' : Outcome} (h : o.Alike o') : o.machine.Alike o'.machine := by
  cases h <;> assumption

end Outcome.Alike

namespace Machine.Alike

variable {m m' : Machine}

theorem mapScene (h : m.Alike m') (f : Scene → Scene) : (m.mapScene f).Alike (m'.mapScene f) := by
  obtain ⟨procedures, rfl, hprocedures⟩ := h
  exact ⟨procedures, rfl, hprocedures⟩

theorem mapLimits (h : m.Alike m') (f : Limits → Limits) :
    (m.mapLimits f).Alike (m'.mapLimits f) := by
  obtain ⟨procedures, rfl, hprocedures⟩ := h
  exact ⟨procedures, rfl, hprocedures⟩

theorem scene (h : m.Alike m') : m'.scene = m.scene := by
  obtain ⟨procedures, rfl, -⟩ := h
  rfl

theorem config (h : m.Alike m') : m'.config = m.config := by
  obtain ⟨procedures, rfl, -⟩ := h
  rfl

theorem library (h : m.Alike m') : m'.library = m.library := by
  obtain ⟨procedures, rfl, -⟩ := h
  rfl

theorem defineProcedure (h : m.Alike m') (name : String) {p q : Procedure} (hpq : p.Alike q) :
    (m.defineProcedure name p).Alike (m'.defineProcedure name q) := by
  obtain ⟨procedures, rfl, hprocedures⟩ := h
  refine ⟨procedures.insert name q, rfl, fun other => ?_⟩
  simp only [Machine.defineProcedure, Std.TreeMap.getElem?_insert]
  split
  · exact .some hpq
  · exact hprocedures other

end Machine.Alike

/-! ## Lines show in faults only -/

/-- The reading with its fault, if it is one, at another line. -/
def relocated {α : Type} (line : Nat) (r : Except Fault α) : Except Fault α :=
  r.mapError fun f => { f with line := line }

theorem Outcome.Alike.given {α : Type} {m m' : Machine} (h : m.Alike m') (r : Except Fault α)
    (line : Nat) {next next' : α → Outcome} (hnext : ∀ a, (next a).Alike (next' a)) :
    (Outcome.given m r next).Alike (Outcome.given m' (relocated line r) next') := by
  cases r with
  | error f => exact .fault rfl h
  | ok a => exact hnext a

namespace Invocation

/-- The same command at another line. -/
def atLine (c : Invocation) (line : Nat) : Invocation :=
  { c with line := line }

variable (c : Invocation) (line : Nat)

theorem values_atLine : (c.atLine line).values = c.values :=
  rfl

theorem number?_atLine (i : Nat) : (c.atLine line).number? i = relocated line (c.number? i) := by
  unfold number?
  rw [values_atLine]
  cases c.values[i]? with
  | none => rfl
  | some value => cases value <;> rfl

theorem number_atLine (i : Nat) : (c.atLine line).number i = relocated line (c.number i) := by
  unfold number
  rw [number?_atLine]
  cases c.number? i with
  | error f => rfl
  | ok x => cases x <;> rfl

theorem count?_atLine (i : Nat) : (c.atLine line).count? i = relocated line (c.count? i) := by
  unfold count?
  rw [number?_atLine]
  cases c.number? i <;> rfl

theorem point_atLine (current : Vector3) :
    (c.atLine line).point current = relocated line (c.point current) := by
  unfold point
  rw [number_atLine, number_atLine, number?_atLine]
  cases c.number 0 with
  | error f => rfl
  | ok x =>
    cases c.number 1 with
    | error f => rfl
    | ok y => cases c.number? 2 <;> rfl

theorem color_atLine (stream : Keystream) :
    (c.atLine line).color stream = relocated line (c.color stream) := by
  unfold color
  rw [values_atLine]
  cases c.values with
  | nil => rfl
  | cons value values =>
    cases value with
    | num hue => rfl
    | text s =>
      dsimp only
      split
      · rfl
      · cases Color.parse? s <;> rfl

theorem lettering_atLine (defaultSize : Float) :
    (c.atLine line).lettering defaultSize = relocated line (c.lettering defaultSize) := by
  unfold lettering
  rw [values_atLine, number?_atLine]
  cases c.values with
  | nil => rfl
  | cons value values => cases c.number? 1 <;> rfl

theorem gridding_atLine (config : Config) :
    (c.atLine line).gridding config = relocated line (c.gridding config) := by
  unfold gridding
  rw [number?_atLine, count?_atLine]
  cases c.number? 0 with
  | error f => rfl
  | ok size => cases c.count? 1 <;> rfl

end Invocation

namespace Machine

variable (m : Machine) (cx : Context) (line line' : Nat)

theorem evalFormula_atLine (source : String) :
    m.evalFormula cx line' source = relocated line' (m.evalFormula cx line source) := by
  unfold evalFormula
  cases m.library.read source with
  | error e => rfl
  | ok tree =>
    dsimp only
    cases m.library.eval cx.scope tree <;> rfl

theorem argumentValue_atLine (word : String) :
    m.argumentValue cx line' word = relocated line' (m.argumentValue cx line word) := by
  unfold argumentValue
  split
  · cases m.library.interpolate cx.scope (unquote word) <;> rfl
  · split
    · rfl
    · rw [m.evalFormula_atLine cx line line' word]
      cases m.evalFormula cx line word with
      | ok x => rfl
      | error f =>
        -- a word for a color is no fault at any line
        obtain ⟨l, cause⟩ := f
        cases cause with
        | formula e =>
          cases e with
          | undefinedVariable name =>
            dsimp only [relocated, Except.mapError]
            split <;> rfl
          | _ => rfl
        | _ => rfl

theorem argumentValues_atLine (words : List String) :
    m.argumentValues cx line' words = relocated line' (m.argumentValues cx line words) := by
  induction words with
  | nil => rfl
  | cons word words ih =>
    rw [argumentValues, argumentValues, m.argumentValue_atLine cx line line' word, ih]
    cases m.argumentValue cx line word with
    | error f => rfl
    | ok v => cases m.argumentValues cx line words <;> rfl

variable {m} {m' : Machine} {cx}

theorem Alike.evalFormula (h : m.Alike m') (source : String) :
    m'.evalFormula cx line' source = relocated line' (m.evalFormula cx line source) := by
  obtain ⟨procedures, rfl, -⟩ := h
  exact m.evalFormula_atLine cx line line' source

theorem Alike.argumentValues (h : m.Alike m') (words : List String) :
    m'.argumentValues cx line' words = relocated line' (m.argumentValues cx line words) := by
  rw [← m.argumentValues_atLine]
  exact Machine.argumentValues_congr h.library cx line' words

end Machine

/-! ## Commands -/

namespace Command

variable (c : Invocation) (line : Nat) {m m' : Machine} (h : m.Alike m')

include h

theorem alike_byNumber (f : Float → Scene → Scene) :
    (byNumber c m f).Alike (byNumber (c.atLine line) m' f) := by
  unfold byNumber
  rw [c.number_atLine]
  exact .given h _ line fun x => .done (h.mapScene (f x))

theorem alike_byPoint (f : Vector3 → Scene → Scene) :
    (byPoint c m f).Alike (byPoint (c.atLine line) m' f) := by
  unfold byPoint
  rw [c.point_atLine, h.scene]
  exact .given h _ line fun target => .done (h.mapScene (f target))

theorem alike_byCount (f : Nat → Limits → Limits) :
    (byCount c m f).Alike (byCount (c.atLine line) m' f) := by
  unfold byCount
  rw [c.count?_atLine]
  exact .given h _ line fun n => .done (h.mapLimits (f (n.getD 0)))

theorem alike_setIfGiven (n : Option Nat) (f : Nat → Limits → Limits) :
    (setIfGiven m n f).Alike (setIfGiven m' n f) := by
  cases n with
  | none => exact h
  | some n => exact h.mapLimits (f n)

theorem alike_setLimits : (setLimits c m).Alike (setLimits (c.atLine line) m') := by
  unfold setLimits
  rw [c.count?_atLine, c.count?_atLine, c.count?_atLine]
  refine .given h _ line fun commands => ?_
  have hcommands := alike_setIfGiven h commands fun n l => l.withCommands n
  refine .given hcommands _ line fun recursions => ?_
  have hrecursions := alike_setIfGiven hcommands recursions fun n l => l.withRecursions n
  exact .given hrecursions _ line fun depth => .done (alike_setIfGiven hrecursions depth _)

theorem alike_showTurtle : (showTurtle c m).Alike (showTurtle (c.atLine line) m') := by
  unfold showTurtle
  rw [c.number?_atLine]
  have hshown := h.mapScene fun s => s.mapTurtle fun t => { t with visible := true }
  refine .given hshown _ line fun size => ?_
  rw [hshown.config]
  exact .done (hshown.mapScene _)

theorem alike_chooseColor : (chooseColor c m).Alike (chooseColor (c.atLine line) m') := by
  unfold chooseColor
  obtain ⟨procedures, rfl, hprocedures⟩ := h
  rw [c.color_atLine]
  exact .given ⟨procedures, rfl, hprocedures⟩ _ line fun chosen =>
    .done ⟨procedures, rfl, hprocedures⟩

theorem alike_writeLabel : (writeLabel c m).Alike (writeLabel (c.atLine line) m') := by
  unfold writeLabel
  rw [c.lettering_atLine, h.config]
  exact .given h _ line fun _ => .done (h.mapScene _)

theorem alike_drawGrid : (drawGrid c m).Alike (drawGrid (c.atLine line) m') := by
  unfold drawGrid
  rw [c.gridding_atLine, h.config]
  exact .given h _ line fun _ => .done (h.mapScene _)

theorem alike_act (command : Command) : (command.act c m).Alike (command.act (c.atLine line) m') := by
  cases command with
  | goto | jumpTo | faceTo => exact alike_byPoint c line h _
  | home | penUp | penDown | hide | fill | erase => exact .done (h.mapScene _)
  | reveal => exact alike_showTurtle c line h
  | label => exact alike_writeLabel c line h
  | grid => exact alike_drawGrid c line h
  | color => exact alike_chooseColor c line h
  | limitCommand => exact alike_byCount c line h fun n l => l.withCommands n
  | limitRecurse => exact alike_byCount c line h fun n l => l.withRecursions n
  | limitDepth => exact alike_byCount c line h fun n l => l.withDepth n
  | limits => exact alike_setLimits c line h
  | _ => exact alike_byNumber c line h _

theorem alike_run (command : Command) : (command.run c m).Alike (command.run (c.atLine line) m') := by
  obtain ⟨procedures, rfl, hprocedures⟩ := h
  unfold run
  split
  · exact .fault rfl ⟨procedures, rfl, hprocedures⟩
  · have hcounted : Machine.Alike { m with commands := m.commands + 1 }
        { m with commands := m.commands + 1, procedures := procedures } :=
      ⟨procedures, rfl, hprocedures⟩
    exact alike_act c line hcounted command

end Command

/-! ## Calls -/

namespace Machine

variable {m m' : Machine} (h : m.Alike m') (cx : Context) (line line' : Nat)

include h

theorem alike_defineFunction (keyword : String) (args : List String) :
    (m.defineFunction line keyword args).Alike (m'.defineFunction line' keyword args) := by
  obtain ⟨procedures, rfl, hprocedures⟩ := h
  simp only [defineFunction]
  split
  · exact .fault rfl ⟨procedures, rfl, hprocedures⟩
  · split
    · exact .fault rfl ⟨procedures, rfl, hprocedures⟩
    · exact .done ⟨procedures, rfl, hprocedures⟩

theorem alike_find (meant : String) :
    ReadAlike Target.Alike (target.find m line meant) (target.find m' line' meant) := by
  obtain ⟨procedures, rfl, hprocedures⟩ := h
  have hrel := hprocedures meant
  unfold target.find
  dsimp only
  generalize m.procedures[meant]? = found at hrel ⊢
  generalize procedures[meant]? = found' at hrel ⊢
  cases hrel with
  | some hpq => exact .ok (.procedure hpq)
  | none =>
    cases Command.ofName? meant with
    | none => exact .error rfl
    | some c => exact .ok (.command c)

/-- A name calls the same command in both states, or procedures of the same shape, or nothing. -/
theorem alike_target (name : String) :
    ReadAlike Target.Alike (m.target cx line name) (m'.target cx line' name) := by
  unfold target
  cases cx.get? name with
  | none => exact alike_find h line line' name
  | some value =>
    cases value with
    | num x => exact .error rfl
    | text meant => exact alike_find h line line' meant

theorem alike_admitCall (depth : Nat) :
    ReadAlike Machine.Alike (m.admitCall line depth) (m'.admitCall line' depth) := by
  obtain ⟨procedures, rfl, hprocedures⟩ := h
  unfold admitCall
  dsimp only
  split
  · exact .error rfl
  · split
    · exact .ok ⟨procedures, rfl, hprocedures⟩
    · split
      · exact .error rfl
      · exact .ok ⟨procedures, rfl, hprocedures⟩

end Machine

/-! ## Bodies -/

section Bodies

variable {body : BodyRunner} {cx : Context} {m m' : Machine}
  (hbody : ∀ {a b} cx {m m'}, sameShapes a b = true → m.Alike m' →
    (body a cx m).Alike (body b cx m'))

include hbody

theorem alike_callProcedure (h : m.Alike m') (line line' : Nat) {p q : Procedure} (hpq : p.Alike q)
    (values : List Value) :
    (m.callProcedure body cx line p values).Alike (m'.callProcedure body cx line' q values) := by
  simp only [Machine.callProcedure, ← hpq.1]
  have hadmit := Machine.alike_admitCall h line line' (cx.call (bindParams p.params values)).depth
  generalize m.admitCall line _ = admitted at hadmit ⊢
  generalize m'.admitCall line' _ = admitted' at hadmit ⊢
  cases hadmit with
  | error hcause => exact .fault hcause h
  | ok hnext => exact hbody _ hpq.2 hnext

theorem alike_call (h : m.Alike m') (k k' : Mark) (name : String) (args : List String) :
    (m.call body cx k name args).Alike (m'.call body cx k' name args) := by
  unfold Machine.call
  by_cases hdef : definesFunction name = true
  · rw [if_pos hdef, if_pos hdef]
    exact Machine.alike_defineFunction h k.line k'.line name args
  · rw [if_neg hdef, if_neg hdef, h.argumentValues k.line k'.line]
    cases m.argumentValues cx k.line args with
    | error f => exact .fault rfl h
    | ok values =>
      dsimp only [relocated, Except.mapError]
      have htarget := Machine.alike_target h cx k.line k'.line name
      generalize m.target cx k.line name = found at htarget ⊢
      generalize m'.target cx k'.line name = found' at htarget ⊢
      cases htarget with
      | error hcause => exact .fault hcause h
      | ok halike =>
        cases halike with
        | procedure hpq => exact alike_callProcedure hbody h k.line k'.line hpq values
        | command c => exact c.alike_run ⟨name, values, k.line⟩ k'.line h

theorem alike_repeat {a b : List Statement} (hshape : sameShapes a b = true) (n : Nat)
    (h : m.Alike m') : (repeatStep (body a cx) n m).Alike (repeatStep (body b cx) n m') := by
  induction n generalizing m m' with
  | zero => exact .done h
  | succ n ih =>
    rw [repeatStep_succ, repeatStep_succ]
    exact .andThen (hbody cx hshape h) ih

theorem alike_loop {a b : List Statement} (hshape : sameShapes a b = true) (count : Float)
    (h : m.Alike m') : (runLoop body cx a count m).Alike (runLoop body cx b count m') := by
  unfold runLoop
  rw [all_isEmpty_of_sameShapes hshape]
  split
  · exact .done h
  · exact alike_repeat hbody hshape _ h

theorem alike_execute {a b : List Statement} (hshape : sameShapes a b = true) (fired : Bool)
    (h : m.Alike m') : (execute body cx fired a m).Alike (execute body cx fired b m') := by
  induction a generalizing b fired m m' with
  | nil =>
    rw [sameShapes_nil hshape]
    exact .done h
  | cons s rest ih =>
    obtain ⟨t, rest', rfl, hst, hrest⟩ := sameShapes_cons hshape
    cases twins_of_sameShape hst with
    | empty k k' => exact ih hrest fired h
    | define k k' name params hinside =>
      exact ih hrest fired (h.defineProcedure name ⟨rfl, hinside⟩)
    | loop k k' count hinside =>
      rw [execute_loop, execute_loop, h.evalFormula k.line k'.line]
      exact .given h _ _ fun x => .andThen (alike_loop hbody hinside x h) (ih hrest fired)
    | when k k' guard hinside =>
      cases fired with
      | true =>
        rw [execute_when_fired, execute_when_fired]
        exact ih hrest true h
      | false =>
        rw [execute_when, execute_when, h.evalFormula k.line k'.line]
        refine .given h _ _ fun x => ?_
        split
        · exact .andThen (hbody cx hinside h) (ih hrest true)
        · exact ih hrest false h
    | call k k' name args =>
      rw [execute_call, execute_call]
      exact .andThen (alike_call hbody h k k' name args) (ih hrest fired)

end Bodies

theorem alike_runBody (room : Nat) :
    ∀ {a b} cx {m m'}, sameShapes a b = true → m.Alike m' →
      (runBody room a cx m).Alike (runBody room b cx m') := by
  induction room with
  | zero => exact fun cx m m' _ h => .fault rfl h
  | succ room ih => exact fun cx m m' hshape h => alike_execute ih hshape false h

/-- Both are done, or both have faults with the same code and message. -/
def Outcome.SameEnd (o o' : Outcome) : Prop :=
  o.fault? = none ∧ o'.fault? = none ∨
    ∃ f g, o.fault? = some f ∧ o'.fault? = some g ∧ f.code = g.code ∧ f.message = g.message

theorem Outcome.Alike.sameEnd {o o' : Outcome} (h : o.Alike o') : o.SameEnd o' := by
  cases h with
  | done _ => exact .inl ⟨rfl, rfl⟩
  | @fault _ _ f g hcause _ =>
    refine .inr ⟨f, g, rfl, rfl, ?_, ?_⟩
    · rw [Fault.code, Fault.code, hcause]
    · rw [Fault.message, Fault.message, hcause]

/-- Bodies of the same shape, run at the same nesting from states that are equal but for the marks in
their procedures, both end well or both fault with the same code and message. They leave states that are
equal again but for the marks in their procedures, and the nesting as it was. -/
theorem runBody_of_sameShapes {a b : List Statement} (hshape : sameShapes a b = true)
    {m m' : Machine} (hm : m.Alike m') (cx : Context) (nesting : Nat) :
    (runBody (maxBodyNesting - nesting) a cx m).SameEnd
        (runBody (maxBodyNesting - nesting) b cx m') ∧
      (runBody (maxBodyNesting - nesting) a cx m).machine.Alike
        (runBody (maxBodyNesting - nesting) b cx m').machine ∧
      ∀ frames,
        (Moment.enter frames nesting cx a m).Leads
          ⟨frames, nesting, runBody (maxBodyNesting - nesting) a cx m⟩ ∧
        (Moment.enter frames nesting cx b m').Leads
          ⟨frames, nesting, runBody (maxBodyNesting - nesting) b cx m'⟩ := by
  have halike := alike_runBody (maxBodyNesting - nesting) cx hshape hm
  exact ⟨halike.sameEnd, halike.machine, fun frames => ⟨leads_enter .., leads_enter ..⟩⟩

/-- A state with one procedure, whose only statement has the given mark. -/
def stateKnowing (k : Mark) : Machine :=
  (Machine.new {} .zeros).defineProcedure "f" ⟨[], [.call k "home" []]⟩

/-- A call of that procedure, and a call of one that is not defined. -/
def twoCalls (k k' : Mark) : List Statement :=
  [.call k "f" [], .call k' "zig" []]

theorem alike_stateKnowing (k k' : Mark) : (stateKnowing k).Alike (stateKnowing k') := by
  have hnew : (Machine.new {} .zeros).Alike (Machine.new {} .zeros) := ⟨∅, rfl, fun name => .none⟩
  exact hnew.defineProcedure "f" ⟨rfl, rfl⟩

/-- Both runs fail at the second call, each at its own line, after the command in the procedure. -/
theorem runBody_of_sameShapes_twoCalls :
    sameShapes (twoCalls ⟨1, some "go"⟩ ⟨2, none⟩) (twoCalls ⟨7, none⟩ ⟨9, some "oops"⟩) = true ∧
      (stateKnowing ⟨1, none⟩).Alike (stateKnowing ⟨4, some "back"⟩) ∧
      (runBody maxBodyNesting (twoCalls ⟨1, some "go"⟩ ⟨2, none⟩) .root
        (stateKnowing ⟨1, none⟩)).fault? = some ⟨2, .undefinedCommand "zig"⟩ ∧
      (runBody maxBodyNesting (twoCalls ⟨7, none⟩ ⟨9, some "oops"⟩) .root
        (stateKnowing ⟨4, some "back"⟩)).fault? = some ⟨9, .undefinedCommand "zig"⟩ ∧
      (runBody maxBodyNesting (twoCalls ⟨1, some "go"⟩ ⟨2, none⟩) .root
        (stateKnowing ⟨1, none⟩)).machine.Alike
        (runBody maxBodyNesting (twoCalls ⟨7, none⟩ ⟨9, some "oops"⟩) .root
          (stateKnowing ⟨4, some "back"⟩)).machine := by
  have hshape : sameShapes (twoCalls ⟨1, some "go"⟩ ⟨2, none⟩)
      (twoCalls ⟨7, none⟩ ⟨9, some "oops"⟩) = true := by decide +kernel
  have hm := alike_stateKnowing ⟨1, none⟩ ⟨4, some "back"⟩
  exact ⟨hshape, hm, by decide +kernel, by decide +kernel,
    (runBody_of_sameShapes hshape hm .root 0).2.1⟩

end TurtleGraphics
