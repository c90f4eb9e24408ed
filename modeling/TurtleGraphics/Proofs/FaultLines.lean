import TurtleGraphics.Proofs.BlockScan
import TurtleGraphics.Proofs.History
import TurtleGraphics.Proofs.Legibility
import TurtleGraphics.Proofs.Marks
import TurtleGraphics.Proofs.StatementLines

/-!
# TurtleGraphics.Proofs.FaultLines

Every fault of a run is reported at a line of its source, unless bodies nest too deep and the body that is
one too many is empty; then there is no line to report (`run_fault_line`).

A fault in the structure of a program is found by the scan at one of the lines it goes over. Every other
fault comes from a statement, which need not be one of the body being run: a definition stores a part of
the tree, and a call may run it from anywhere. So what is kept along a run is that all statements stand at
lines of the source, those of the body and those in the procedures known (`Machine.KnowsAt`).
-/

namespace TurtleGraphics

open Program (Line Statement Mark)
open Program.Statement (preorderAll)

/-! ## Source lines -/

namespace Program

theorem lt_of_mem_linesFrom {number : Nat} {raws : List (List Char)} {l : Line}
    (h : l ∈ linesFrom number raws) : l.number < number + raws.length := by
  induction raws generalizing number with
  | nil => cases h
  | cons raw raws ih =>
    rw [List.length_cons]
    rcases List.mem_append.1 h with h | h
    · rw [number_of_mem_linesOf h]
      omega
    · have hlater := ih h
      omega

/-- The numbers of the lines of a source text. -/
def IsLineOf (source : String) (number : Nat) : Prop :=
  1 ≤ number ∧ number ≤ (Text.lines source.toList).length

theorem isLineOf_of_mem_lines {source : String} {l : Line} (h : l ∈ lines source) :
    IsLineOf source l.number :=
  ⟨le_of_mem_linesFrom h, by have hlt := lt_of_mem_linesFrom h; omega⟩

/-! ## Defects of structure -/

/-- A line is defective itself, or leaves only lines open that were read. -/
theorem scanLine_cases (opened : List Line) (line : Line) :
    (∃ number, scanLine opened line = defective number line) ∨
      ∃ still, scanLine opened line = .ok still ∧ still ⊆ line :: opened := by
  have hsame : opened ⊆ line :: opened := List.subset_cons_self line opened
  unfold scanLine
  cases line.words with
  | nil => exact .inr ⟨opened, rfl, hsame⟩
  | cons word args =>
    dsimp only
    split
    · cases opened with
      | nil => exact .inl ⟨3, rfl⟩
      | cons opener outer => exact .inr ⟨outer, rfl, fun x hx => by simp [hx]⟩
    · split
      · split
        · exact .inl ⟨2, rfl⟩
        · split
          · exact .inl ⟨4, rfl⟩
          · split
            · exact .inl ⟨6, rfl⟩
            · exact .inr ⟨_, rfl, List.Subset.refl _⟩
      · split
        · exact .inl ⟨5, rfl⟩
        · exact .inr ⟨opened, rfl, hsame⟩

theorem defect_of_scan {opened ls : List Line} {d : Defect} (h : scan opened ls = .error d) :
    ∃ number, ∃ l ∈ opened ++ ls, d = ⟨⟨.program, number⟩, l.number⟩ := by
  induction ls generalizing opened with
  | nil =>
    cases opened with
    | nil => cases h
    | cons opener outer =>
      cases h
      exact ⟨1, opener, by simp, rfl⟩
  | cons line rest ih =>
    rw [scan_cons] at h
    rcases scanLine_cases opened line with ⟨number, hline⟩ | ⟨still, hline, hstill⟩
    · rw [hline] at h
      cases h
      exact ⟨number, line, by simp, rfl⟩
    · rw [hline] at h
      obtain ⟨number, l, hl, hd⟩ := ih h
      refine ⟨number, l, ?_, hd⟩
      rcases List.mem_append.1 hl with hl | hl
      · rcases List.mem_cons.1 (hstill hl) with rfl | hl
        · simp
        · simp [hl]
      · simp [hl]

/-- A program that cannot be read is at fault in its structure, at one of its lines. -/
theorem parse_fault {source : String} {f : Fault} (h : parse source = .error f) :
    f.code.phase = .program ∧ IsLineOf source f.line := by
  have hscan : scan [] (lines source) = .error f.defect :=
    ((parse_agrees_with_scan source).2 f.defect).1 ⟨f, h, rfl⟩
  obtain ⟨number, l, hl, hd⟩ := defect_of_scan hscan
  have hcode : f.code = ⟨.program, number⟩ := congrArg Defect.code hd
  have hline : f.line = l.number := congrArg Defect.line hd
  rw [hcode, hline]
  exact ⟨rfl, isLineOf_of_mem_lines hl⟩

end Program

/-! ## Statements and states -/

/-- All statements, at any depth, stand at such lines. -/
def StandAt (P : Nat → Prop) (statements : List Statement) : Prop :=
  ∀ s ∈ preorderAll statements, P s.line

/-- So do those of all procedures that are known. -/
def Machine.KnowsAt (P : Nat → Prop) (m : Machine) : Prop :=
  ∀ (name : String) (p : Procedure), m.procedures[name]? = some p → StandAt P p.body

/-- A fault that statements at such lines can raise. Only where bodies nest too deep need there be no line
to report. -/
def Fault.RaisedAt (P : Nat → Prop) (f : Fault) : Prop :=
  f.code.phase ≠ .program ∧ (P f.line ∨ f.line = 0 ∧ f.code = ⟨.resource, 3⟩)

/-- A step that keeps to such lines. -/
inductive Outcome.KeepsTo (P : Nat → Prop) : Outcome → Prop where
  | done {m : Machine} : m.KnowsAt P → KeepsTo P (.done m)
  | fault {m : Machine} {f : Fault} : m.KnowsAt P → f.RaisedAt P → KeepsTo P (.fault f m)

theorem Outcome.KeepsTo.andThen {P : Nat → Prop} {o : Outcome} {next : Machine → Outcome}
    (ho : o.KeepsTo P) (hnext : ∀ m, m.KnowsAt P → (next m).KeepsTo P) :
    (o.andThen next).KeepsTo P := by
  cases ho with
  | done hm => exact hnext _ hm
  | fault hm hf => exact .fault hm hf

namespace StandAt

variable {P : Nat → Prop} {s : Statement} {rest : List Statement}

theorem head (h : StandAt P (s :: rest)) : P s.line := by
  refine h s (List.mem_append_left _ ?_)
  cases s <;> simp [Statement.preorder]

theorem tail (h : StandAt P (s :: rest)) : StandAt P rest :=
  fun x hx => h x (List.mem_append_right _ hx)

theorem body (h : StandAt P (s :: rest)) {body : List Statement} (hbody : s.body? = some body) :
    StandAt P body := by
  intro x hx
  refine h x (List.mem_append_left _ ?_)
  rw [Statement.preorder_of_block hbody]
  exact List.mem_cons_of_mem s hx

end StandAt

theorem Machine.KnowsAt.defineProcedure {P : Nat → Prop} {m : Machine} (h : m.KnowsAt P)
    (name : String) {p : Procedure} (hp : StandAt P p.body) : (m.defineProcedure name p).KnowsAt P := by
  intro other q hq
  rw [Machine.defineProcedure, Std.TreeMap.getElem?_insert] at hq
  split at hq
  · cases hq
    exact hp
  · exact h other q hq

/-! ## Formulas -/

theorem Formula.Error.phase_ne_program (e : Formula.Error) : e.code.phase ≠ .program := by
  cases e <;> exact nofun

/-- A computation that fails at a given line only, and not for the structure of the program. -/
def FailsAt {α : Type} (line : Nat) (r : Except Fault α) : Prop :=
  ∀ f, r = .error f → f.line = line ∧ f.code.phase ≠ .program

theorem FailsAt.ok {α : Type} (line : Nat) (a : α) : FailsAt line (.ok a : Except Fault α) :=
  nofun

theorem FailsAt.error {α : Type} (line : Nat) {cause : Cause} (h : cause.code.phase ≠ .program) :
    FailsAt line (.error ⟨line, cause⟩ : Except Fault α) := by
  rintro _ ⟨⟩
  exact ⟨rfl, h⟩

/-- A failure that is passed on. -/
theorem FailsAt.pass {α β : Type} {line : Nat} {r : Except Fault α} {f : Fault} (h : FailsAt line r)
    (hf : r = .error f) : FailsAt line (.error f : Except Fault β) := by
  rintro _ ⟨⟩
  exact h f hf

theorem FailsAt.raisedAt {P : Nat → Prop} {α : Type} {line : Nat} {r : Except Fault α} {f : Fault}
    (h : FailsAt line r) (hf : r = .error f) (hline : P line) : f.RaisedAt P := by
  obtain ⟨rfl, hphase⟩ := h f hf
  exact ⟨hphase, .inl hline⟩

theorem FailsAt.given {P : Nat → Prop} {α : Type} {m : Machine} {line : Nat} {r : Except Fault α}
    {next : α → Outcome} (h : FailsAt line r) (hm : m.KnowsAt P) (hline : P line)
    (hnext : ∀ a, (next a).KeepsTo P) : (Outcome.given m r next).KeepsTo P := by
  cases r with
  | error f => exact .fault hm (h.raisedAt rfl hline)
  | ok a => exact hnext a

namespace Machine

variable (m : Machine) (cx : Context) (line : Nat)

theorem failsAt_evalFormula (source : String) : FailsAt line (m.evalFormula cx line source) := by
  unfold evalFormula
  split
  · exact .error line (Formula.Error.phase_ne_program _)
  · split
    · exact .error line (Formula.Error.phase_ne_program _)
    · exact .ok line _

theorem failsAt_argumentValue (word : String) : FailsAt line (m.argumentValue cx line word) := by
  unfold argumentValue
  split
  · split
    · exact .error line (Formula.Error.phase_ne_program _)
    · exact .ok line _
  · split
    · exact .ok line _
    · have heval := m.failsAt_evalFormula cx line word
      split
      · exact .ok line _
      · rename_i hf
        obtain ⟨rfl, -⟩ := heval _ hf
        split
        · exact .ok _ _
        · exact .error _ (Formula.Error.phase_ne_program _)
      · rename_i hf
        exact heval.pass hf

theorem failsAt_argumentValues (words : List String) :
    FailsAt line (m.argumentValues cx line words) := by
  induction words with
  | nil => exact .ok line _
  | cons word words ih =>
    rw [argumentValues]
    cases hv : m.argumentValue cx line word with
    | error f => exact (m.failsAt_argumentValue cx line word).pass hv
    | ok v =>
      cases hvs : m.argumentValues cx line words with
      | error f => exact ih.pass hvs
      | ok vs => exact .ok line _

end Machine

/-! ## Commands -/

/-- A step that faults at a given line only. -/
def Outcome.FaultsAt (line : Nat) (o : Outcome) : Prop :=
  ∀ f, o.fault? = some f → f.line = line

namespace Outcome.FaultsAt

theorem done (line : Nat) (m : Machine) : FaultsAt line (.done m) :=
  nofun

theorem given {α : Type} {line : Nat} {m : Machine} {r : Except Fault α} {next : α → Outcome}
    (hr : r = relocated line r) (hnext : ∀ a, (next a).FaultsAt line) :
    (Outcome.given m r next).FaultsAt line := by
  cases r with
  | error f =>
    rintro _ ⟨⟩
    exact congrArg Fault.line (Except.error.inj hr)
  | ok a => exact hnext a

end Outcome.FaultsAt

namespace Command

open Outcome (FaultsAt)

/-- Moving a command to the line it stands at already changes none of its faults. -/
theorem faultsAt_act (command : Command) (c : Invocation) (m : Machine) :
    (command.act c m).FaultsAt c.line := by
  cases command with
  | goto | jumpTo | faceTo => exact .given (c.point_atLine c.line _) fun _ => .done _ _
  | home | penUp | penDown | hide | fill | erase => exact .done _ _
  | reveal => exact .given (c.number?_atLine c.line 0) fun _ => .done _ _
  | label => exact .given (c.lettering_atLine c.line _) fun _ => .done _ _
  | grid => exact .given (c.gridding_atLine c.line _) fun _ => .done _ _
  | color => exact .given (c.color_atLine c.line _) fun _ => .done _ _
  | limitCommand | limitRecurse | limitDepth =>
    exact .given (c.count?_atLine c.line 0) fun _ => .done _ _
  | limits =>
    exact .given (c.count?_atLine c.line 0) fun _ => .given (c.count?_atLine c.line 1) fun _ =>
      .given (c.count?_atLine c.line 2) fun _ => .done _ _
  | _ => exact .given (c.number_atLine c.line 0) fun _ => .done _ _

theorem keepsTo_act {P : Nat → Prop} (command : Command) {c : Invocation} {m : Machine}
    (hm : m.KnowsAt P) (hline : P c.line) : (command.act c m).KeepsTo P := by
  have hkept : (command.act c m).machine.procedures = m.procedures := by
    rw [kept_act command c m]
  have hknows : (command.act c m).machine.KnowsAt P := by
    unfold Machine.KnowsAt
    rw [hkept]
    exact hm
  -- the line of a fault and its phase come from two lemmas about the same outcome
  have hat := command.faultsAt_act c m
  have hsemantic := uncounted_act c m command
  generalize command.act c m = o at hknows hat hsemantic ⊢
  cases hsemantic with
  | done _ => exact .done hknows
  | @fault m' f _ hkind =>
    have hphase : f.code.phase ≠ .program := by
      intro hprogram
      rw [Fault.kind, Code.kind, hprogram] at hkind
      cases hkind
    exact .fault hknows ⟨hphase, .inl (hat f rfl ▸ hline)⟩

theorem keepsTo_run {P : Nat → Prop} (command : Command) {c : Invocation} {m : Machine}
    (hm : m.KnowsAt P) (hline : P c.line) : (command.run c m).KeepsTo P := by
  unfold run
  split
  · exact .fault hm ⟨nofun, .inl hline⟩
  · exact keepsTo_act command hm hline

end Command

/-! ## Calls -/

namespace Machine

variable (m : Machine) (cx : Context) (line : Nat)

theorem failsAt_find (meant : String) : FailsAt line (target.find m line meant) := by
  unfold target.find
  split
  · exact .ok line _
  · split
    · exact .ok line _
    · exact .error line nofun

theorem failsAt_target (name : String) : FailsAt line (m.target cx line name) := by
  unfold target
  split
  · exact .error line nofun
  · exact m.failsAt_find line _
  · exact m.failsAt_find line _

theorem failsAt_admitCall (depth : Nat) : FailsAt line (m.admitCall line depth) := by
  unfold admitCall
  split
  · exact .error line nofun
  · split
    · exact .ok line _
    · split
      · exact .error line nofun
      · exact .ok line _

variable {m cx line} {P : Nat → Prop}

theorem KnowsAt.of_find (hm : m.KnowsAt P) {meant : String} {p : Procedure}
    (h : target.find m line meant = .ok (.procedure p)) : StandAt P p.body := by
  unfold target.find at h
  split at h
  · rename_i found
    cases h
    exact hm meant p found
  · split at h <;> cases h

theorem KnowsAt.of_target (hm : m.KnowsAt P) {name : String} {p : Procedure}
    (h : m.target cx line name = .ok (.procedure p)) : StandAt P p.body := by
  unfold target at h
  split at h
  · cases h
  · exact hm.of_find h
  · exact hm.of_find h

theorem KnowsAt.of_admitCall (hm : m.KnowsAt P) {depth : Nat} {m' : Machine}
    (h : m.admitCall line depth = .ok m') : m'.KnowsAt P := by
  unfold admitCall at h
  split at h
  · cases h
  · split at h
    · cases h
      exact hm
    · split at h
      · cases h
      · cases h
        exact hm

theorem keepsTo_defineFunction (hm : m.KnowsAt P) (hline : P line) (keyword : String)
    (args : List String) : (m.defineFunction line keyword args).KeepsTo P := by
  simp only [defineFunction]
  split
  · exact .fault hm ⟨by simp [Fault.code, Cause.code], .inl hline⟩
  · generalize m.library.define _ _ = defined
    cases defined with
    | error e => exact .fault hm ⟨e.phase_ne_program, .inl hline⟩
    | ok named => exact .done hm

end Machine

/-! ## Bodies -/

section Bodies

variable {P : Nat → Prop} {body : BodyRunner} {cx : Context}
  (hbody : ∀ statements cx m, StandAt P statements → m.KnowsAt P → (body statements cx m).KeepsTo P)

include hbody

theorem keepsTo_callProcedure {m : Machine} (hm : m.KnowsAt P) {line : Nat} (hline : P line)
    {p : Procedure} (hp : StandAt P p.body) (values : List Value) :
    (m.callProcedure body cx line p values).KeepsTo P := by
  simp only [Machine.callProcedure]
  cases hadmit : m.admitCall line (cx.call (bindParams p.params values)).depth with
  | error f => exact .fault hm ((m.failsAt_admitCall line _).raisedAt hadmit hline)
  | ok m' => exact hbody p.body _ m' hp (hm.of_admitCall hadmit)

theorem keepsTo_call {m : Machine} (hm : m.KnowsAt P) {mark : Mark} (hline : P mark.line)
    (name : String) (args : List String) : (m.call body cx mark name args).KeepsTo P := by
  unfold Machine.call
  split
  · exact Machine.keepsTo_defineFunction hm hline name args
  · cases hargs : m.argumentValues cx mark.line args with
    | error f => exact .fault hm ((m.failsAt_argumentValues cx mark.line args).raisedAt hargs hline)
    | ok values =>
      cases htarget : m.target cx mark.line name with
      | error f => exact .fault hm ((m.failsAt_target cx mark.line name).raisedAt htarget hline)
      | ok target =>
        cases target with
        | procedure p => exact keepsTo_callProcedure hbody hm hline (hm.of_target htarget) values
        | command c => exact c.keepsTo_run hm hline

theorem keepsTo_repeat {statements : List Statement} (hs : StandAt P statements) (n : Nat)
    {m : Machine} (hm : m.KnowsAt P) : (repeatStep (body statements cx) n m).KeepsTo P := by
  induction n generalizing m with
  | zero => exact .done hm
  | succ n ih =>
    rw [repeatStep_succ]
    exact .andThen (hbody statements cx m hs hm) fun _ => ih

theorem keepsTo_loop {statements : List Statement} (hs : StandAt P statements) (count : Float)
    {m : Machine} (hm : m.KnowsAt P) : (runLoop body cx statements count m).KeepsTo P := by
  unfold runLoop
  split
  · exact .done hm
  · exact keepsTo_repeat hbody hs _ hm

theorem keepsTo_execute {statements : List Statement} (hs : StandAt P statements) (fired : Bool)
    {m : Machine} (hm : m.KnowsAt P) : (execute body cx fired statements m).KeepsTo P := by
  induction statements generalizing fired m with
  | nil => exact .done hm
  | cons s rest ih =>
    have hline := hs.head
    have hrest := ih hs.tail
    cases s with
    | empty mark => exact hrest fired hm
    | define mark name params statements => exact hrest fired (hm.defineProcedure name (hs.body rfl))
    | loop mark count statements =>
      rw [execute_loop]
      exact (m.failsAt_evalFormula cx mark.line count).given hm hline fun x =>
        .andThen (keepsTo_loop hbody (hs.body rfl) x hm) fun _ => hrest fired
    | when mark guard statements =>
      cases fired with
      | true =>
        rw [execute_when_fired]
        exact hrest true hm
      | false =>
        rw [execute_when]
        refine (m.failsAt_evalFormula cx mark.line guard).given hm hline fun x => ?_
        split
        · exact .andThen (hbody statements cx m (hs.body rfl) hm) fun _ => hrest true
        · exact hrest false hm
    | call mark name args =>
      rw [execute_call]
      exact .andThen (keepsTo_call hbody hm hline name args) fun _ => hrest fired

end Bodies

theorem keepsTo_runBody {P : Nat → Prop} (room : Nat) :
    ∀ statements cx m, StandAt P statements → m.KnowsAt P →
      (runBody room statements cx m).KeepsTo P := by
  induction room with
  | zero =>
    intro statements cx m hs hm
    refine .fault hm ⟨nofun, ?_⟩
    -- the line is that of the first statement, and only an empty body has none
    cases statements with
    | nil => exact .inr ⟨rfl, rfl⟩
    | cons s rest => exact .inl hs.head
  | succ room ih => exact fun statements cx m hs hm => keepsTo_execute ih hs false hm

theorem standAt_of_parse {source : String} {program : List Statement}
    (h : Program.parse source = .ok program) : StandAt (Program.IsLineOf source) program := by
  intro s hs
  obtain ⟨l, hl, -, hmark⟩ := (Program.spells_of_parse h).heads s hs
  have hline : s.line = l.number := congrArg Mark.line hmark
  rw [hline]
  exact Program.isLineOf_of_mem_lines hl

/-- A fault of a program that can be read comes from one of its statements. -/
theorem Machine.exec_fault {m m' : Machine} {source : String} {program : List Statement} {f : Fault}
    (hparse : Program.parse source = .ok program) (h : m.reset.exec program = .fault f m') :
    f.RaisedAt (Program.IsLineOf source) := by
  have hknows : m.reset.KnowsAt (Program.IsLineOf source) := by
    intro name p hp
    simp [Machine.reset] at hp
  have hkeeps := keepsTo_runBody maxBodyNesting program .root m.reset (standAt_of_parse hparse) hknows
  rw [← Machine.exec, h] at hkeeps
  cases hkeeps
  assumption

/-! ## Runs -/

/-- Nothing was carried out: the turtle, the counters, the limits and what is drawn are those of a new
machine. -/
def Machine.Untouched (m : Machine) : Prop :=
  m.scene.turtle = .new m.config ∧ m.commands = 0 ∧ m.recursions = 0 ∧
    m.limits = m.config.limits.capped ∧ m.scene.timeline.buckets = Timeline.new.buckets

/-- A run that fails reports one of the lines of its source, or no line if bodies nest too deep. The fault
is one of structure exactly if the source cannot be read, and then nothing was carried out. -/
theorem run_fault_line {m : Machine} {source : String} {f : Fault} (h : (m.run source).1 = .error f) :
    (1 ≤ f.line ∧ f.line ≤ (Text.lines source.toList).length ∨
        f.line = 0 ∧ f.code = ⟨.resource, 3⟩) ∧
      (f.code.phase = .program ↔ ∃ g, Program.parse source = .error g) ∧
      (f.code.phase = .program →
        Program.parse source = .error f ∧ (m.run source).2.config = m.config ∧
          (m.run source).2.Untouched) := by
  unfold Machine.run at h ⊢
  cases hparse : Program.parse source with
  | error g =>
    simp only [hparse, Except.error.injEq] at h ⊢
    subst h
    obtain ⟨hphase, hline⟩ := Program.parse_fault hparse
    exact ⟨.inl hline, iff_of_true hphase ⟨g, rfl⟩, fun _ => ⟨rfl, rfl, rfl, rfl, rfl, rfl, rfl⟩⟩
  | ok program =>
    simp only [hparse] at h
    cases hexec : m.reset.exec program with
    | done m' => simp [hexec] at h
    | fault g m' =>
      simp only [hexec, Except.error.injEq] at h
      subst h
      obtain ⟨hphase, hline⟩ := Machine.exec_fault hparse hexec
      exact ⟨hline, iff_of_false hphase nofun, fun hprogram => absurd hprogram hphase⟩

/-- A name that means nothing is reported where it stands in a procedure, not where that is called; and
after an `end` too many the command before it was not carried out. -/
theorem run_fault_line_samples :
    ((Machine.new {} .zeros).run "draw f do\nzig\nend\nfor 2 do f end").1 =
        .error ⟨2, .undefinedCommand "zig"⟩ ∧
      (¬∃ g, Program.parse "draw f do\nzig\nend\nfor 2 do f end" = .error g) ∧
      ((Machine.new {} .zeros).run "fw 1\nend").1 = .error ⟨2, .endWithoutDo⟩ ∧
      ((Machine.new {} .zeros).run "fw 1\nend").2.Untouched := by
  have hname : ((Machine.new {} .zeros).run "draw f do\nzig\nend\nfor 2 do f end").1 =
      .error ⟨2, .undefinedCommand "zig"⟩ := by decide +kernel
  have hend : ((Machine.new {} .zeros).run "fw 1\nend").1 = .error ⟨2, .endWithoutDo⟩ := by
    decide +kernel
  exact ⟨hname, (run_fault_line hname).2.1.not.1 nofun, hend, ((run_fault_line hend).2.2 rfl).2.2⟩

end TurtleGraphics
