import TurtleGraphics.Proofs.TimelineLog
import TurtleGraphics.Proofs.Trace

/-!
# TurtleGraphics.Proofs.Drawing

What a run draws. `Timeline.segments` lists the lines of a drawing, point to point, each with its color
and thickness. A command that moves the turtle with its pen down adds one of them at the end, and
nothing else does (`segments_after`); so the segments of a run are those of its moves in the order they
were made (`segments_run`).

A move can add to a path that was begun long before. What makes this right is that the open path, if
there is one, ends where the turtle is, has its color and thickness and is the last primitive written
(`Scene.Tied`).
-/

namespace TurtleGraphics

/-! ## Segments -/

structure Segment where
  start : Vector3
  stop : Vector3
  color : Color
  thickness : Float

/-- The lines from each point of a path to the next one. -/
def Path.segments (p : Path) : List Segment :=
  List.zipWith (fun a b => ⟨a, b, p.color, p.thickness⟩) p.points.toList p.points.toList.tail

def Timeline.segments (t : Timeline) : List Segment :=
  t.paths.flatMap Path.segments

theorem Path.segments_fill (p : Path) : p.fill.segments = p.segments :=
  rfl

theorem zipWith_tail_concat {α β : Type} (f : α → α → β) (xs : List α) (last x : α) :
    List.zipWith f (xs ++ [last] ++ [x]) (xs ++ [last] ++ [x]).tail =
      List.zipWith f (xs ++ [last]) (xs ++ [last]).tail ++ [f last x] := by
  induction xs with
  | nil => rfl
  | cons a xs ih =>
    cases xs with
    | nil => rfl
    | cons b xs => simpa using ih

theorem Path.segments_extend {p : Path} {last : Vector3}
    (h : p.points.toList.getLast? = some last) (point : Vector3) :
    (p.extend point).segments = p.segments ++ [⟨last, point, p.color, p.thickness⟩] := by
  obtain ⟨front, hfront⟩ := List.getLast?_eq_some_iff.1 h
  rw [segments, segments, extend, Array.toList_push, hfront]
  exact zipWith_tail_concat _ front last point

namespace Timeline

theorem segments_of_primitives {t t' : Timeline} (h : t'.primitives = t.primitives) :
    t'.segments = t.segments := by
  rw [segments, segments, paths, paths, h]

theorem segments_append_path {t : Timeline} {front : List Primitive} {p : Path}
    (h : t.primitives = front ++ [.path p]) :
    t.segments = (front.filterMap Primitive.path?).flatMap Path.segments ++ p.segments := by
  rw [segments, paths, h]
  simp [Primitive.path?]

theorem segments_push {t : Timeline} (h : t.AtCursor) {p : Primitive} (hp : p.path? = none) :
    (t.push p).segments = t.segments := by
  rw [segments, segments, paths, paths, primitives_push h]
  simp [hp]

end Timeline

/-! ## The turtle and its open path -/

/-- The path goes on from where the turtle is, as the turtle would draw it. -/
structure Turtle.Draws (turtle : Turtle) (p : Path) : Prop where
  penDown : turtle.penDown = true
  position : p.points.toList.getLast? = some turtle.position
  color : p.color = turtle.color
  thickness : p.thickness = turtle.thickness

/-- The turtle can go on with the open path, which is the last thing written. -/
structure Scene.Tied (s : Scene) : Prop where
  atCursor : s.timeline.AtCursor
  mirrors : s.timeline.openPath = none ∨
    ∃ front p, s.timeline.Open front p [] ∧ s.turtle.Draws p

/-- What a command can do to a scene, other than move the turtle with its pen. -/
inductive Scene.Still (s : Scene) : Scene → Prop where
  /-- Changes of the turtle that leave the pen where and as it is, except that they may put it down. -/
  | turn (turtle : Turtle) : turtle.position = s.turtle.position → turtle.color = s.turtle.color →
      turtle.thickness = s.turtle.thickness → (s.turtle.penDown = true → turtle.penDown = true) →
      Still s { s with turtle := turtle }
  /-- Changes that end the open path. -/
  | close (turtle : Turtle) : Still s ⟨turtle, s.timeline.closePath⟩
  | fill : Still s s.fill
  | place (p : Primitive) : p.path? = none → Still s (s.place p)
  | wait (ms : Time) : Still s (s.wait ms)

namespace Scene

theorem tied_new (config : Config) : (new config).Tied :=
  ⟨Timeline.atCursor_new, .inl rfl⟩

theorem Tied.still {s s' : Scene} (h : s.Tied) (hs : s.Still s') :
    s'.Tied ∧ s'.timeline.segments = s.timeline.segments := by
  cases hs with
  | turn turtle hpos hcolor hthick hpen =>
    refine ⟨⟨h.atCursor, h.mirrors.imp_right ?_⟩, rfl⟩
    rintro ⟨front, p, hopen, hd⟩
    exact ⟨front, p, hopen, hpen hd.penDown, hpos ▸ hd.position, hcolor ▸ hd.color,
      hthick ▸ hd.thickness⟩
  | close turtle => exact ⟨⟨h.atCursor, .inl rfl⟩, rfl⟩
  | fill =>
    rcases h.mirrors with hclosed | ⟨front, p, hopen, -⟩
    · have hnone : s.timeline.fillOpen? = none := Timeline.modifyOpen?_of_closed hclosed _
      rw [Scene.fill, hnone]
      exact ⟨⟨h.atCursor, .inl rfl⟩, rfl⟩
    · obtain ⟨t, ht, hopen'⟩ := hopen.modifyOpen? Path.fill
      have hsome : s.timeline.fillOpen? = some t := ht
      rw [Scene.fill, hsome]
      refine ⟨⟨hopen'.atCursor, .inl rfl⟩, ?_⟩
      rw [Timeline.segments_append_path hopen.primitives, ← Path.segments_fill,
        ← Timeline.segments_append_path hopen'.primitives]
      rfl
  | place p hp =>
    exact ⟨⟨h.atCursor.closePath.push p, .inl rfl⟩, Timeline.segments_push h.atCursor.closePath hp⟩
  | wait ms =>
    have hpush := h.atCursor.push (.head s.turtle.pose)
    refine ⟨⟨hpush.advance ms, .inl rfl⟩, ?_⟩
    rw [Scene.wait, Timeline.segments_of_primitives (Timeline.primitives_advance hpush ms),
      Timeline.segments_push h.atCursor rfl]

/-- A move with the pen down draws one segment, and one with the pen up none. -/
theorem Tied.moveTo {s : Scene} (h : s.Tied) (target : Vector3) :
    (s.moveTo target).Tied ∧ (s.moveTo target).timeline.segments =
      s.timeline.segments ++
        if s.turtle.penDown then
          [⟨s.turtle.position, target, s.turtle.color, s.turtle.thickness⟩]
        else [] := by
  cases hpen : s.turtle.penDown with
  | false =>
    simp only [Scene.moveTo, hpen]
    exact ⟨⟨h.atCursor, .inl rfl⟩, by simp; rfl⟩
  | true =>
    simp only [Scene.moveTo, hpen, if_true, drawTo]
    rcases h.mirrors with hclosed | ⟨front, p, hopen, hd⟩
    · -- no path is open: the segment is a path of its own
      have hnone : s.timeline.addPoint? target = none := Timeline.modifyOpen?_of_closed hclosed _
      have hstart := h.atCursor.open_startPath (segment s.turtle target)
      simp only [hnone]
      refine ⟨⟨hstart.atCursor, .inr ⟨_, _, hstart, rfl, rfl, rfl, rfl⟩⟩, ?_⟩
      rw [Timeline.segments_append_path hstart.primitives]
      rfl
    · -- the open path grows by one point, and is last, so its new segment is the last one
      obtain ⟨t, ht, hopen'⟩ := hopen.modifyOpen? (Path.extend target)
      have hsome : s.timeline.addPoint? target = some t := ht
      simp only [hsome]
      refine ⟨⟨hopen'.atCursor, .inr ⟨_, _, hopen', rfl, ?_, hd.color, hd.thickness⟩⟩, ?_⟩
      · simp [Path.extend]
      · rw [Timeline.segments_append_path hopen'.primitives, Path.segments_extend hd.position,
          ← List.append_assoc, ← Timeline.segments_append_path hopen.primitives, hd.color, hd.thickness]

end Scene

/-! ## Commands -/

/-- Whether a command moves the turtle with its pen. -/
def Command.moves : Command → Bool
  | forward => true
  | back => true
  | goto => true
  | _ => false

theorem Scene.Still.refl (s : Scene) : s.Still s :=
  .turn s.turtle rfl rfl rfl id

theorem Outcome.scene_given {α : Type} {P : Scene → Prop} {m : Machine} {r : Except Fault α}
    {next : α → Outcome} (herror : P m.scene) (hok : ∀ a, P (next a).machine.scene) :
    P (given m r next).machine.scene := by
  cases r with
  | error f => exact herror
  | ok a => exact hok a

namespace Command

theorem act_moves {command : Command} (h : command.moves = true) (c : Invocation) (m : Machine) :
    (∃ f, command.act c m = .fault f m) ∨
      ∃ target, command.act c m = .done (m.mapScene fun s => s.moveTo target) := by
  cases command with
  | forward =>
    simp only [act, byNumber, Outcome.given]
    cases c.number 0 with
    | error f => exact .inl ⟨f, rfl⟩
    | ok x => exact .inr ⟨m.scene.turtle.ahead x, by simp only [Machine.mapScene, Scene.forward]⟩
  | back =>
    simp only [act, byNumber, Outcome.given]
    cases c.number 0 with
    | error f => exact .inl ⟨f, rfl⟩
    | ok x => exact .inr ⟨m.scene.turtle.ahead (-x), by simp only [Machine.mapScene, Scene.forward]⟩
  | goto =>
    simp only [act, byPoint, Outcome.given]
    cases c.point m.scene.turtle.position with
    | error f => exact .inl ⟨f, rfl⟩
    | ok target => exact .inr ⟨target, rfl⟩
  | _ => cases h

theorem scene_setIfGiven (m : Machine) (n : Option Nat) (f : Nat → Limits → Limits) :
    (setIfGiven m n f).scene = m.scene := by
  cases n <;> rfl

theorem act_still {command : Command} (h : command.moves = false) (c : Invocation) (m : Machine) :
    m.scene.Still (command.act c m).machine.scene := by
  cases command with
  | forward => cases h
  | back => cases h
  | goto => cases h
  | left => exact Outcome.scene_given (.refl _) fun x => .turn _ rfl rfl rfl id
  | right => exact Outcome.scene_given (.refl _) fun x => .turn _ rfl rfl rfl id
  | pitch => exact Outcome.scene_given (.refl _) fun x => .turn _ rfl rfl rfl id
  | roll => exact Outcome.scene_given (.refl _) fun x => .turn _ rfl rfl rfl id
  | faceTo => exact Outcome.scene_given (.refl _) fun target => .turn _ rfl rfl rfl id
  | jump => exact Outcome.scene_given (.refl _) fun x => .close _
  | jumpTo => exact Outcome.scene_given (.refl _) fun target => .close _
  | home => exact .close _
  | penUp => exact .close _
  | penDown => exact .turn _ rfl rfl rfl fun _ => rfl
  | hide => exact .turn _ rfl rfl rfl id
  | reveal => exact Outcome.scene_given (.turn _ rfl rfl rfl id) fun size => .turn _ rfl rfl rfl id
  | label => exact Outcome.scene_given (.refl _) fun lettering => .place _ rfl
  | grid => exact Outcome.scene_given (.refl _) fun gridding => .place _ rfl
  | fill => exact .fill
  | wait => exact Outcome.scene_given (.refl _) fun x => .wait _
  | erase => exact .place _ rfl
  | color => exact Outcome.scene_given (.refl _) fun chosen => .close _
  | thickness => exact Outcome.scene_given (.refl _) fun x => .close _
  | limitCommand => exact Outcome.scene_given (.refl _) fun n => .refl _
  | limitRecurse => exact Outcome.scene_given (.refl _) fun n => .refl _
  | limitDepth => exact Outcome.scene_given (.refl _) fun n => .refl _
  | limits =>
    refine Outcome.scene_given (.refl _) fun commands => ?_
    refine Outcome.scene_given ?_ fun recursions => Outcome.scene_given ?_ fun depth => ?_
    all_goals
      simp only [Outcome.machine, scene_setIfGiven]
      exact .refl _

end Command

/-! ## Runs -/

namespace Dispatch

/-- The segment that a dispatch has to draw: one if it moves the turtle with the pen down. -/
def drawn (d : Dispatch) : List Segment :=
  match d.outcome with
  | .fault _ _ => []
  | .done after =>
    if d.command.moves && d.before.scene.turtle.penDown then
      [⟨d.before.scene.turtle.position, after.scene.turtle.position, d.before.scene.turtle.color,
        d.before.scene.turtle.thickness⟩]
    else []

/-- What a dispatch does to the scene. It fails and leaves the scene, it moves the turtle, or its command
is none of those that move it. -/
theorem scene_cases (d : Dispatch) :
    (∃ f m, d.outcome = .fault f m ∧ m.scene = d.before.scene) ∨
      (∃ m target, d.command.moves = true ∧ d.outcome = .done m ∧
        m.scene = d.before.scene.moveTo target) ∨
      (d.command.moves = false ∧ d.before.scene.Still d.after.scene) := by
  by_cases hlimit : d.before.limits.maxCommands ≤ d.before.commands
  · have ho : d.outcome = .fault ⟨d.invocation.line, .commandLimit d.before.limits.maxCommands⟩
        d.before := by
      rw [outcome, Command.run, if_pos hlimit]
    exact .inl ⟨_, _, ho, rfl⟩
  · have ho : d.outcome = d.command.act d.invocation
        { d.before with commands := d.before.commands + 1 } := by
      rw [outcome, Command.run, if_neg hlimit]
    cases hmoves : d.command.moves with
    | true =>
      rcases Command.act_moves hmoves d.invocation
        { d.before with commands := d.before.commands + 1 } with ⟨f, hact⟩ | ⟨target, hact⟩
      · exact .inl ⟨f, _, ho.trans hact, rfl⟩
      · exact .inr (.inl ⟨_, target, rfl, ho.trans hact, rfl⟩)
    | false =>
      refine .inr (.inr ⟨rfl, ?_⟩)
      rw [after, ho]
      exact Command.act_still hmoves d.invocation
        { d.before with commands := d.before.commands + 1 }

theorem segments_after (d : Dispatch) (h : d.before.scene.Tied) :
    d.after.scene.Tied ∧
      d.after.scene.timeline.segments = d.before.scene.timeline.segments ++ d.drawn := by
  rcases d.scene_cases with ⟨f, m, ho, hs⟩ | ⟨m, target, hmoves, ho, hs⟩ | ⟨hmoves, hs⟩
  · simp only [after, drawn, ho, Outcome.machine, hs, List.append_nil, and_true]
    exact h
  · simp only [after, drawn, ho, Outcome.machine, hs, hmoves, Bool.true_and]
    exact h.moveTo target
  · obtain ⟨htied, hsame⟩ := h.still hs
    have hnone : d.drawn = [] := by
      unfold drawn
      cases d.outcome <;> simp [hmoves]
    rw [hnone, List.append_nil]
    exact ⟨htied, hsame⟩

end Dispatch

theorem Trace.segments_eq {m m' : Machine} {ds : List Dispatch} (h : Trace m ds m')
    (hm : m.scene.Tied) :
    m'.scene.timeline.segments = m.scene.timeline.segments ++ ds.flatMap Dispatch.drawn := by
  induction h with
  | nil hq => rw [hq.scene]; simp
  | @cons m m' d ds hq _ ih =>
    rw [← hq.scene] at hm ⊢
    obtain ⟨htied, hdrawn⟩ := d.segments_after hm
    rw [ih htied, hdrawn, List.flatMap_cons, List.append_assoc]

/-- The drawing is the movement with the pen down. Every dispatch of a run adds the segment it has to
draw and nothing else. Between two dispatches the scene stays as it is. So the drawing of a run, however
it ends, has the segments of its dispatches in order. -/
theorem segments_run (m : Machine) (source : String) :
    (∀ d ∈ m.dispatches source,
      d.after.scene.timeline.segments = d.before.scene.timeline.segments ++ d.drawn) ∧
    (∃ last, Trace m.reset (m.dispatches source) last ∧
      (m.run source).2.scene = last.scene.finish) ∧
    (m.run source).2.scene.timeline.segments = (m.dispatches source).flatMap Dispatch.drawn := by
  obtain ⟨last, htrace, hend⟩ := trace_run m source
  have hstart : m.reset.scene.Tied := Scene.tied_new m.config
  have htied : ∀ d ∈ m.dispatches source, d.before.scene.Tied :=
    (htrace.invariant (P := fun m => m.scene.Tied) (fun hq h => hq.scene ▸ h)
      (fun d h => (d.segments_after h).1) hstart).1
  refine ⟨fun d hd => (d.segments_after (htied d hd)).2, ⟨last, htrace, hend⟩, ?_⟩
  have hfinish : last.scene.finish.timeline.segments = last.scene.timeline.segments := rfl
  have hnew : m.reset.scene.timeline.segments = [] := rfl
  rw [hend, hfinish, htrace.segments_eq hstart, hnew, List.nil_append]

end TurtleGraphics
