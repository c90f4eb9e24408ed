import TurtleGraphics.Proofs.Coherence
import TurtleGraphics.Proofs.Playback

/-!
# TurtleGraphics.Proofs.Notices

What a canvas is told besides what to draw, and when. A player goes through three phases. It is early
until a tick lies beyond the end of the timeline, and then it only draws; that tick draws what is left
and announces the pose; the tick after it takes the snapshot, and nothing follows. So the log of a
playback is a part of the primitives, or all of them with the pose and the snapshot behind
(`playback_notices`).

No primitive comes after the pose because none is written beyond the end (`Timeline.InTime`).
-/

namespace TurtleGraphics

/-! ## Times before and beyond the end -/

namespace Timeline

theorem filter_before_isPrefix {l : List (Time × Array Primitive)}
    (hl : l.Pairwise fun a b => a.1 < b.1) (stop : Time) :
    l.filter (fun e => e.1 < stop) <+: l := by
  induction l with
  | nil => exact List.prefix_rfl
  | cons e l ih =>
    obtain ⟨hlt, hl⟩ := List.pairwise_cons.1 hl
    by_cases he : e.1 < stop
    · rw [List.filter_cons_of_pos (by simpa using he), List.prefix_cons_inj]
      exact ih hl
    · -- the buckets behind a late one are late too
      have hnone : (e :: l).filter (fun e => e.1 < stop) = [] := by
        rw [List.filter_eq_nil_iff]
        intro e' he' hbefore
        have hbefore : e'.1 < stop := by simpa using hbefore
        rcases List.mem_cons.1 he' with rfl | hmem
        · exact he hbefore
        · exact he (UInt64.lt_trans (hlt e' hmem) hbefore)
      rw [hnone]
      exact List.nil_prefix

/-- What is drawn up to a time is drawn first. -/
theorem drawn_isPrefix (t : Timeline) (stop : Time) :
    ((t.range 0 stop).flatMap fun e => e.2.toList) <+: t.primitives := by
  obtain ⟨later, hlater⟩ := filter_before_isPrefix (sorted_toList t.buckets) stop
  rw [range_zero]
  refine ⟨later.flatMap fun e => e.2.toList, ?_⟩
  rw [← List.flatMap_append, toList, hlater]
  rfl

variable {t : Timeline}

theorem InTime.le_endTime (h : t.InTime) {e : Time × Array Primitive} (he : e ∈ t.toList) :
    e.1 ≤ t.endTime := by
  have hget : t.buckets[e.1]? = some e.2 := Std.TreeMap.mem_toList_iff_getElem?_eq_some.1 he
  exact h.buckets e.1 (Std.TreeMap.mem_iff_isSome_getElem?.2 (by rw [hget]; rfl))

theorem InTime.range_all (h : t.InTime) {stop : Time} (hstop : t.endTime < stop) :
    t.range 0 stop = t.toList := by
  rw [range_zero, List.filter_eq_self]
  intro e he
  simpa using UInt64.lt_of_le_of_lt (h.le_endTime he) hstop

theorem InTime.range_beyond (h : t.InTime) {start : Time} (hstart : t.endTime < start)
    (stop : Time) : t.range start stop = [] := by
  rw [range, List.filter_eq_nil_iff]
  intro e he hmem
  have hlate : start ≤ e.1 := by
    simp only [Bool.and_eq_true, decide_eq_true_eq] at hmem
    exact hmem.1
  exact UInt64.lt_irrefl _
    (UInt64.lt_of_lt_of_le hstart (UInt64.le_trans hlate (h.le_endTime he)))

end Timeline

/-! ## Phases -/

namespace Player

/-- What the canvas is told in ticks at the given times, tick by tick. -/
def log (p : Player) (timeline : Timeline) (times : List Time) : List (List Event) :=
  (p.ticks timeline times).map Tick.events

/-- No tick was beyond the end. -/
structure Early (p : Player) (timeline : Timeline) : Prop where
  phase : p.phase = .start
  drawnUntil : p.drawnUntil ≤ timeline.endTime

variable {p : Player} {timeline : Timeline}

theorem log_cons (time : Time) (times : List Time) :
    p.log timeline (time :: times) =
      (p.tick timeline time).events :: (p.tick timeline time).player.log timeline times :=
  rfl

theorem log_append (times later : List Time) :
    p.log timeline (times ++ later) =
      p.log timeline times ++ (p.afterTicks timeline times).log timeline later := by
  induction times generalizing p with
  | nil => rfl
  | cons time times ih =>
    rw [List.cons_append, log_cons, ih]
    rfl

theorem early_new : new.Early timeline :=
  ⟨rfl, Time.zero_le _⟩

theorem drawn_ticks_new (times : List Time) :
    (new.ticks timeline times).flatMap Tick.drawn =
      (timeline.range 0 (new.afterTicks timeline times).drawnUntil).flatMap fun e => e.2.toList := by
  rw [drawn_ticks, drawnUntil_afterTicks]
  rfl

theorem Early.tick (h : p.Early timeline) {time : Time} (htime : time ≤ timeline.endTime) :
    (p.tick timeline time).notice = none ∧ (p.tick timeline time).player.Early timeline := by
  have hmax : max time p.drawnUntil ≤ timeline.endTime := by
    rw [Time.max_def]
    split
    · exact h.drawnUntil
    · exact htime
  have hphase : p.nextPhase timeline (max time p.drawnUntil) = (.start, none) := by
    simp only [nextPhase, h.phase]
    exact if_neg (UInt64.not_lt.2 hmax)
  simp only [Player.tick, hphase]
  exact ⟨trivial, rfl, hmax⟩

/-- An early player draws and announces nothing. -/
theorem Early.ticks (h : p.Early timeline) {times : List Time}
    (htimes : ∀ time ∈ times, time ≤ timeline.endTime) :
    (p.log timeline times).flatten = ((p.ticks timeline times).flatMap Tick.drawn).map .draw ∧
      (p.afterTicks timeline times).Early timeline := by
  induction times generalizing p with
  | nil => exact ⟨rfl, h⟩
  | cons time times ih =>
    obtain ⟨htime, htimes⟩ := List.forall_mem_cons.1 htimes
    obtain ⟨hnotice, hnext⟩ := h.tick htime
    obtain ⟨hlog, hafter⟩ := ih hnext htimes
    refine ⟨?_, hafter⟩
    have hevents : (p.tick timeline time).events = (p.tick timeline time).drawn.map .draw := by
      rw [Tick.events, hnotice]
      simp
    rw [log_cons, List.flatten_cons, hevents, hlog]
    simp [Player.ticks]

/-- The first tick beyond the end announces the pose. -/
theorem Early.pass (h : p.Early timeline) {time : Time} (htime : timeline.endTime < time)
    {pose : Pose} (hpose : timeline.finalPose = some pose) :
    (p.tick timeline time).notice = some (.pose pose) ∧
      (p.tick timeline time).player.phase = .reaching ∧
      timeline.endTime < (p.tick timeline time).player.drawnUntil := by
  have hmax : timeline.endTime < max time p.drawnUntil :=
    UInt64.lt_of_lt_of_le htime (Time.le_max_left _ _)
  have hphase : p.nextPhase timeline (max time p.drawnUntil) = (.reaching, some (.pose pose)) := by
    simp only [nextPhase, h.phase, hpose]
    exact if_pos hmax
  simp only [Player.tick, hphase]
  exact ⟨trivial, trivial, hmax⟩

/-- What a player sends in ticks after the one that announced the pose. -/
def sentAfterPose : List Time → List (List Event)
  | [] => []
  | _ :: times => [.snapshot] :: times.map fun _ => []

theorem late_tick (hlate : timeline.endTime < p.drawnUntil) (time : Time) :
    timeline.endTime < (p.tick timeline time).player.drawnUntil := by
  rw [drawnUntil_tick]
  exact UInt64.lt_of_lt_of_le hlate (Time.le_max_left _ _)

/-- A player beyond the end has nothing left to draw. -/
theorem events_late (hin : timeline.InTime) (hlate : timeline.endTime < p.drawnUntil) (time : Time) :
    (p.tick timeline time).events = (p.nextPhase timeline (max time p.drawnUntil)).2.toList := by
  rw [Tick.events, drawn_tick, hin.range_beyond hlate]
  rfl

theorem log_reached (hin : timeline.InTime) (hlate : timeline.endTime < p.drawnUntil)
    (hphase : p.phase = .reached) (times : List Time) :
    p.log timeline times = times.map fun _ => [] := by
  induction times generalizing p with
  | nil => rfl
  | cons time times ih =>
    have hstep : p.nextPhase timeline (max time p.drawnUntil) = (.reached, none) := by
      simp only [nextPhase, hphase]
    have hreached : (p.tick timeline time).player.phase = .reached := congrArg Prod.fst hstep
    rw [log_cons, events_late hin hlate, hstep, ih (late_tick hlate time) hreached]
    rfl

/-- After the pose comes one snapshot, in the next tick, and nothing more. -/
theorem log_reaching (hin : timeline.InTime) (hlate : timeline.endTime < p.drawnUntil)
    (hphase : p.phase = .reaching) (times : List Time) :
    p.log timeline times = sentAfterPose times := by
  cases times with
  | nil => rfl
  | cons time times =>
    have hstep : p.nextPhase timeline (max time p.drawnUntil) = (.reached, some .snapshot) := by
      simp only [nextPhase, hphase]
    have hreached : (p.tick timeline time).player.phase = .reached := congrArg Prod.fst hstep
    rw [log_cons, events_late hin hlate, hstep, log_reached hin (late_tick hlate time) hreached]
    rfl

/-- The first tick beyond the end draws all that is left and announces the pose. -/
theorem log_beyond (hin : timeline.InTime) {pose : Pose} (hpose : timeline.finalPose = some pose)
    {before : List Time} (hbefore : ∀ t ∈ before, t ≤ timeline.endTime) {time : Time}
    (htime : timeline.endTime < time) (after : List Time) :
    ∃ earlier last, earlier ++ last = timeline.primitives ∧
      (new.log timeline before).flatten = earlier.map .draw ∧
      new.log timeline (before ++ time :: after) =
        new.log timeline before ++ (last.map .draw ++ [.pose pose]) :: sentAfterPose after := by
  obtain ⟨hlog, hearly⟩ := early_new.ticks hbefore
  generalize hp : new.afterTicks timeline before = p at hearly
  obtain ⟨hnotice, hphase, hlate⟩ := hearly.pass htime hpose
  refine ⟨_, (p.tick timeline time).drawn, ?_, hlog, ?_⟩
  · -- the range of this tick goes on where the earlier ticks stopped
    rw [drawnUntil_tick] at hlate
    rw [drawn_ticks_new, hp, drawn_tick, ← List.flatMap_append,
      timeline.range_append (Time.zero_le _) (Time.le_max_left _ _), hin.range_all hlate]
    rfl
  · have hevents : (p.tick timeline time).events =
        (p.tick timeline time).drawn.map .draw ++ [.pose pose] := by
      rw [Tick.events, hnotice]
      rfl
    rw [log_append, hp, ← hevents, ← log_reaching hin hlate hphase]
    rfl

theorem flatten_sentAfterPose (times : List Time) :
    (sentAfterPose times).flatten = if times.isEmpty then [] else [.snapshot] := by
  cases times with
  | nil => rfl
  | cons time times => simp [sentAfterPose]

end Player

/-! ## The log of a playback -/

/-- The first of some times that is beyond another, if there is one. -/
theorem Time.first_beyond (stop : Time) (times : List Time) :
    (∀ time ∈ times, time ≤ stop) ∨
      ∃ before time after, times = before ++ time :: after ∧ (∀ t ∈ before, t ≤ stop) ∧
        stop < time := by
  cases hfind : times.find? (stop < ·) with
  | none =>
    refine .inl fun time htime => ?_
    have := List.find?_eq_none.1 hfind time htime
    simpa using this
  | some time =>
    obtain ⟨htime, before, after, rfl, hbefore⟩ := List.find?_eq_some_iff_append.1 hfind
    refine .inr ⟨before, time, after, rfl, fun t ht => ?_, by simpa using htime⟩
    simpa using hbefore t ht

/-- A timeline that was made by edits, and then finished. -/
def Timeline.finished (edits : List Timeline.Edit) (pose : Pose) : Timeline :=
  (new.editAll edits).finish pose

/-- The canvas is told to draw first primitives, in order, then the pose, then one snapshot. If no tick
lies beyond the end, it is told to draw only. The first tick that does draws what is left of all the
primitives and announces the pose after them; the next tick, if there is one, takes the snapshot, and
the ticks after that tell nothing. -/
theorem playback_notices (edits : List Timeline.Edit) (pose : Pose) (times : List Time) :
    ∃ (drawn : List Primitive) (notice closing : List Event),
      (Player.new.log (.finished edits pose) times).flatten = drawn.map .draw ++ notice ++ closing ∧
      drawn <+: (Timeline.finished edits pose).primitives ∧
      ((∀ time ∈ times, time ≤ (Timeline.finished edits pose).endTime) ∧
          notice = [] ∧ closing = [] ∨
        ∃ before time after, times = before ++ time :: after ∧
          (∀ t ∈ before, t ≤ (Timeline.finished edits pose).endTime) ∧
          (Timeline.finished edits pose).endTime < time ∧
          drawn = (Timeline.finished edits pose).primitives ∧ notice = [.pose pose] ∧
          closing = (if after.isEmpty then [] else [.snapshot]) ∧
          ∃ earlier last, earlier ++ last = drawn ∧
            (Player.new.log (.finished edits pose) before).flatten = earlier.map .draw ∧
            Player.new.log (.finished edits pose) times =
              Player.new.log (.finished edits pose) before ++
                (last.map .draw ++ notice) :: Player.sentAfterPose after) := by
  have hin : (Timeline.finished edits pose).InTime :=
    ((Timeline.coherent_editAll edits).edit (.finish pose)).inTime
  have hpose : (Timeline.finished edits pose).finalPose = some pose := rfl
  generalize Timeline.finished edits pose = timeline at hin hpose ⊢
  rcases Time.first_beyond timeline.endTime times with hall | ⟨before, time, after, rfl, hbefore, htime⟩
  · obtain ⟨hlog, -⟩ := Player.early_new.ticks hall
    rw [Player.drawn_ticks_new] at hlog
    exact ⟨_, [], [], by simpa using hlog, timeline.drawn_isPrefix _, .inl ⟨hall, rfl, rfl⟩⟩
  · obtain ⟨earlier, last, hall, hlog, hsplit⟩ := Player.log_beyond hin hpose hbefore htime after
    refine ⟨timeline.primitives, [.pose pose], _, ?_, List.prefix_rfl, .inr
      ⟨before, time, after, rfl, hbefore, htime, rfl, rfl, rfl, _, _, hall, hlog, hsplit⟩⟩
    rw [hsplit, List.flatten_append, List.flatten_cons, hlog, Player.flatten_sentAfterPose, ← hall]
    simp

end TurtleGraphics
