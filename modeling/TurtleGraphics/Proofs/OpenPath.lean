import TurtleGraphics.Proofs.Drawing
import TurtleGraphics.Proofs.ResourceBounds

/-!
# TurtleGraphics.Proofs.OpenPath

The open path mirrors the pen. Between any two statements of a run an open path is an unfilled line that
was written last, ends where the turtle is and looks as the turtle would draw it now, and the pen is
down. A run that is over has no open path and keeps the pose of its turtle
(`openPath_mirrors_turtle`).

`Scene.Tied` has most of this. What is left is that an open path is an unfilled line of two points or
more (`Timeline.OpenLine`); commands that do not move the turtle either leave the open path as it is or
close it (`Scene.Still.openPath`).
-/

namespace TurtleGraphics

/-! ## Lines -/

def Path.IsLine (p : Path) : Prop :=
  p.filled = false ∧ 2 ≤ p.points.size

theorem Path.IsLine.extend {p : Path} (h : p.IsLine) (point : Vector3) : (p.extend point).IsLine := by
  refine ⟨h.1, ?_⟩
  rw [Path.extend, Array.size_push]
  exact Nat.le_succ_of_le h.2

theorem isLine_segment (turtle : Turtle) (target : Vector3) : (Scene.segment turtle target).IsLine :=
  ⟨rfl, Nat.le_refl 2⟩

/-- The open path, if there is one, is a line. -/
def Timeline.OpenLine (t : Timeline) : Prop :=
  ∀ p, t.openPath? = some p → p.IsLine

theorem Timeline.openLine_of_closed {t : Timeline} (h : t.openPath = none) : t.OpenLine := by
  intro p hp
  rw [Timeline.openPath?, h] at hp
  cases hp

theorem Timeline.Open.openLine {t : Timeline} {front back : List Primitive} {p : Path}
    (h : t.Open front p back) (hp : p.IsLine) : t.OpenLine := by
  intro q hq
  rw [h.openPath?_eq] at hq
  cases hq
  exact hp

/-! ## Scenes -/

namespace Scene

theorem Still.openPath {s s' : Scene} (h : s.Still s') :
    s'.timeline.openPath = none ∨ s'.timeline = s.timeline := by
  cases h with
  | turn turtle => exact .inr rfl
  | close turtle => exact .inl rfl
  | fill => exact .inl rfl
  | place p => exact .inl rfl
  | wait ms => exact .inl rfl

/-- What holds of a scene between two statements. -/
structure InStep (s : Scene) : Prop where
  tied : s.Tied
  line : s.timeline.OpenLine

theorem inStep_new (config : Config) : (new config).InStep :=
  ⟨tied_new config, Timeline.openLine_of_closed rfl⟩

theorem InStep.still {s s' : Scene} (h : s.InStep) (hs : s.Still s') : s'.InStep := by
  refine ⟨(h.tied.still hs).1, ?_⟩
  rcases hs.openPath with hclosed | hsame
  · exact Timeline.openLine_of_closed hclosed
  · rw [hsame]
    exact h.line

theorem InStep.moveTo {s : Scene} (h : s.InStep) (target : Vector3) : (s.moveTo target).InStep := by
  refine ⟨(h.tied.moveTo target).1, ?_⟩
  cases hpen : s.turtle.penDown with
  | false =>
    simp only [Scene.moveTo, hpen]
    exact Timeline.openLine_of_closed rfl
  | true =>
    simp only [Scene.moveTo, hpen, if_true, drawTo]
    rcases h.tied.mirrors with hclosed | ⟨front, p, hopen, -⟩
    · have hnone : s.timeline.addPoint? target = none := Timeline.modifyOpen?_of_closed hclosed _
      simp only [hnone]
      exact (h.tied.atCursor.open_startPath _).openLine (isLine_segment s.turtle target)
    · obtain ⟨t, ht, hopen'⟩ := hopen.modifyOpen? (Path.extend target)
      have hsome : s.timeline.addPoint? target = some t := ht
      simp only [hsome]
      exact hopen'.openLine ((h.line p hopen.openPath?_eq).extend target)

end Scene

/-! ## Dispatches -/

theorem Dispatch.inStep_after (d : Dispatch) (h : d.before.scene.InStep) : d.after.scene.InStep := by
  rcases d.scene_cases with ⟨f, m, ho, hs⟩ | ⟨m, target, -, ho, hs⟩ | ⟨-, hs⟩
  · rw [after, ho, Outcome.machine, hs]
    exact h
  · rw [after, ho, Outcome.machine, hs]
    exact h.moveTo target
  · exact h.still hs

/-! ## Moments

Of all that a step can do, only a command changes the scene. -/

theorem Machine.scene_settles {m : Machine} {o : Outcome} (h : m.Settles o) :
    o.machine.scene = m.scene ∨ ∃ d : Dispatch, d.before = m ∧ d.after = o.machine := by
  cases h with
  | passed => exact .inl rfl
  | refused f => exact .inl rfl
  | procedure name p => exact .inl rfl
  | function line keyword args => exact .inl (m.quiet_defineFunction line keyword args).scene
  | command command c => exact .inr ⟨⟨command, c, m⟩, rfl, rfl⟩

namespace Moment

theorem Move.scene {s t : Moment} (h : s.Move t) :
    t.machine.scene = s.machine.scene ∨ ∃ d : Dispatch, d.before = s.machine ∧ d.after = t.machine := by
  cases h with
  | leaveBody => exact .inl rfl
  | leaveLoop => exact .inl rfl
  | settle h => exact Machine.scene_settles h
  | startLoop => exact .inl rfl
  | goRound => rw [machine_enter]; exact .inl rfl
  | guarded => rw [machine_enter]; exact .inl rfl
  | called statements h => rw [machine_enter]; exact .inl (Machine.quiet_admitCall h).scene

theorem inStep_of_steps {m : Machine} {source : String} {i : Nat} {s : Moment}
    (h : (m.firstMoment source).steps i = some s) : s.machine.scene.InStep := by
  refine invariant (P := fun s => s.machine.scene.InStep) ?_ ?_ h
  · intro s t hmove hs
    rcases hmove.scene with hsame | ⟨d, hbefore, hafter⟩
    · rw [hsame]
      exact hs
    · rw [← hafter]
      exact d.inStep_after (hbefore ▸ hs)
  · rw [machine_firstMoment]
    exact Scene.inStep_new m.config

end Moment

/-! ## Runs -/

/-- The path `p` is open, is the last primitive of the drawing and the last one at the cursor, and the
turtle with its pen down goes on with it. -/
structure Scene.Mirrors (s : Scene) (p : Path) : Prop where
  penDown : s.turtle.penDown = true
  last : s.timeline.primitives.getLast? = some (.path p)
  atCursor : ∃ index, s.timeline.openPath = some ⟨s.timeline.now, index⟩ ∧
    (s.timeline.bucketAt s.timeline.now)[index]? = some (.path p) ∧
    index + 1 = (s.timeline.bucketAt s.timeline.now).size
  bucket : (s.timeline.bucketAt s.timeline.now).toList <:+ s.timeline.primitives
  filled : p.filled = false
  points : 2 ≤ p.points.size
  position : p.points.toList.getLast? = some s.turtle.position
  color : p.color = s.turtle.color
  thickness : p.thickness = s.turtle.thickness

theorem Scene.InStep.mirrors {s : Scene} (h : s.InStep) (hopen : s.timeline.isPathOpen = true) :
    ∃ p, s.Mirrors p := by
  rcases h.tied.mirrors with hclosed | ⟨front, p, hopen, hdraws⟩
  · rw [Timeline.isPathOpen, hclosed] at hopen
    cases hopen
  · obtain ⟨hfilled, hpoints⟩ := h.line p hopen.openPath?_eq
    have hprimitives := hopen.primitives
    obtain ⟨earlier, bucket, before, hl, hb, hplace, -⟩ := hopen
    have hbucket := Timeline.bucketAt_now hl
    refine ⟨p, hdraws.penDown, ?_, ⟨before.length, hplace, ?_, ?_⟩, ?_, hfilled, hpoints,
      hdraws.position, hdraws.color, hdraws.thickness⟩
    · rw [hprimitives, List.getLast?_append]
      rfl
    · rw [hbucket, ← Array.getElem?_toList, hb]
      simp
    · rw [hbucket, ← Array.length_toList, hb, List.length_append]
      rfl
    · rw [hbucket, Timeline.primitives_of_toList hl]
      exact List.suffix_append _ _

/-- The open path mirrors the pen. At every moment of every run an open path is the last thing drawn and
goes on from the turtle as it is. When the run is over, well or with a fault, no path is open and the pose
that is kept is that of the turtle. -/
theorem openPath_mirrors_turtle (m : Machine) (source : String) :
    (∀ i s, (m.firstMoment source).steps i = some s →
      s.machine.scene.timeline.isPathOpen = true → ∃ p, s.machine.scene.Mirrors p) ∧
    (∃ o, (m.firstMoment source).Leads ⟨[], 0, o⟩ ∧ (m.run source).1 = o.result ∧
      (m.run source).2.scene = o.machine.scene.finish) ∧
    (m.run source).2.scene.timeline.isPathOpen = false ∧
    (m.run source).2.scene.timeline.finalPose = some (m.run source).2.scene.turtle.pose := by
  obtain ⟨o, report, hleads, hrun⟩ := leads_run m source
  have hscene : (m.run source).2.scene = o.machine.scene.finish := by
    rw [hrun]
    rfl
  refine ⟨fun i s hs hopen => (Moment.inStep_of_steps hs).mirrors hopen,
    ⟨o, hleads, by rw [hrun], hscene⟩, ?_, ?_⟩
  · rw [hscene]
    rfl
  · rw [hscene]
    rfl

/-- Two moves with the pen down: after the second the open path ends where it led. -/
theorem openPath_mirrors_second_move :
    ∃ s p, ((Machine.new {} .zeros).firstMoment "goto 3 4\ngoto 5 6").steps 2 = some s ∧
      s.machine.scene.timeline.isPathOpen = true ∧ s.machine.scene.Mirrors p ∧
      p.points.toList.getLast? = some ⟨5, 6, 0⟩ := by
  have hmoment : ((((Machine.new {} .zeros).firstMoment "goto 3 4\ngoto 5 6").steps 2).map fun s =>
      (s.machine.scene.timeline.isPathOpen, s.machine.scene.turtle.position)) =
      some (true, ⟨5, 6, 0⟩) := by
    decide +kernel
  obtain ⟨s, hs, heq⟩ := Option.map_eq_some_iff.1 hmoment
  obtain ⟨hopen, hposition⟩ := Prod.mk.inj heq
  obtain ⟨p, hp⟩ := (openPath_mirrors_turtle (.new {} .zeros) "goto 3 4\ngoto 5 6").1 2 s hs hopen
  exact ⟨s, p, hs, hopen, hp, hposition ▸ hp.position⟩

end TurtleGraphics
