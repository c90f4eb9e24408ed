import Mathlib.Algebra.GroupWithZero.Nat
import TurtleGraphics.Picture.Player
import TurtleGraphics.Proofs.TimelineLog

/-!
# TurtleGraphics.Proofs.Playback

Playing back draws every primitive once and in order, whenever the ticks come. A tick draws a half-open
range of time, and the range of the next tick begins where that one ends. Adjacent ranges of a timeline
are one range (`Timeline.range_append`), so all the ticks together draw the range from the start to the
latest of their times, and neither ticks that repeat a time nor ticks that step back add to it.
-/

namespace TurtleGraphics

/-! ## The latest of some times -/

theorem Time.zero_le (a : Time) : 0 ≤ a :=
  UInt64.le_iff_toNat_le.2 (Nat.zero_le _)

theorem Time.zero_max (a : Time) : max 0 a = a := by
  rw [max_def, if_pos (zero_le a)]

theorem Time.le_foldl_max (times : List Time) (a : Time) : a ≤ times.foldl max a := by
  induction times generalizing a with
  | nil => exact UInt64.le_refl a
  | cons time times ih => exact UInt64.le_trans (le_max_left a time) (ih _)

/-- The latest of some times, and 0 if there is none. -/
def Time.latest (times : List Time) : Time :=
  times.max?.getD 0

theorem Time.foldl_max_zero (times : List Time) : times.foldl max 0 = latest times := by
  cases times with
  | nil => rfl
  | cons time times => rw [latest, List.max?_cons', List.foldl_cons, zero_max, Option.getD_some]

/-! ## Adjacent ranges -/

namespace Timeline

theorem filter_range_eq_nil {l : List (Time × Array Primitive)} {start stop : Time}
    (h : ∀ e ∈ l, stop ≤ e.1) : l.filter (fun e => start ≤ e.1 && e.1 < stop) = [] := by
  rw [List.filter_eq_nil_iff]
  intro e he
  have := h e he
  simp only [Bool.and_eq_true, decide_eq_true_eq, not_and, UInt64.not_lt]
  exact fun _ => this

theorem filter_range_append {l : List (Time × Array Primitive)}
    (hl : l.Pairwise fun a b => a.1 < b.1) {a b c : Time} (hab : a ≤ b) (hbc : b ≤ c) :
    l.filter (fun e => a ≤ e.1 && e.1 < b) ++ l.filter (fun e => b ≤ e.1 && e.1 < c) =
      l.filter (fun e => a ≤ e.1 && e.1 < c) := by
  induction l with
  | nil => rfl
  | cons e l ih =>
    obtain ⟨hlt, hl⟩ := List.pairwise_cons.1 hl
    by_cases he : e.1 < b
    · -- the bucket is in the first range or in none
      have hc : e.1 < c := UInt64.lt_of_lt_of_le he hbc
      have hb : ¬b ≤ e.1 := UInt64.not_le.2 he
      by_cases ha : a ≤ e.1
      · simp [he, hc, hb, ha, ih hl]
      · simp [ha, hb, ih hl]
    · -- all buckets from here on are too late for the first range
      have hb : b ≤ e.1 := UInt64.not_lt.1 he
      have ha : a ≤ e.1 := UInt64.le_trans hab hb
      have hlate : ∀ e' ∈ e :: l, b ≤ e'.1 := by
        intro e' he'
        rcases List.mem_cons.1 he' with rfl | he'
        · exact hb
        · exact UInt64.le_trans hb (UInt64.le_of_lt (hlt e' he'))
      rw [filter_range_eq_nil hlate, List.nil_append]
      refine List.filter_congr fun e' he' => ?_
      have hb' := hlate e' he'
      simp [hb', UInt64.le_trans hab hb']

theorem range_append (t : Timeline) {a b c : Time} (hab : a ≤ b) (hbc : b ≤ c) :
    t.range a b ++ t.range b c = t.range a c :=
  filter_range_append (sorted_toList t.buckets) hab hbc

theorem range_self (t : Timeline) (a : Time) : t.range a a = [] := by
  rw [range, List.filter_eq_nil_iff]
  intro e _
  simp [UInt64.not_lt]

theorem range_zero (t : Timeline) (stop : Time) :
    t.range 0 stop = t.toList.filter fun e => e.1 < stop :=
  List.filter_congr fun e _ => by simp [UInt64.le_iff_toNat_le]

end Timeline

/-! ## Ticks -/

namespace Player

/-- What ticks at the given times do, one after the other. -/
def ticks (p : Player) (timeline : Timeline) : List Time → List Tick
  | [] => []
  | time :: times =>
    let tick := p.tick timeline time
    tick :: tick.player.ticks timeline times

/-- The player after ticks at the given times. -/
def afterTicks (p : Player) (timeline : Timeline) (times : List Time) : Player :=
  times.foldl (fun p time => (p.tick timeline time).player) p

end Player

/-- What is drawn, if something is. -/
def Event.primitive? : Event → Option Primitive
  | draw p => some p
  | pose _ => none
  | snapshot => none

/-- All that a new player draws in ticks at the given times. -/
def Timeline.playback (timeline : Timeline) (times : List Time) : List Primitive :=
  ((Player.new.ticks timeline times).flatMap Tick.events).filterMap Event.primitive?

namespace Player

variable (p : Player) (timeline : Timeline)

theorem notice_tick (time : Time) :
    (p.tick timeline time).notice.bind Event.primitive? = none := by
  simp only [tick, nextPhase]
  cases p.phase with
  | start =>
    by_cases hend : timeline.endTime < max time p.drawnUntil
    · cases hpose : timeline.finalPose <;> simp [hend, Event.primitive?]
    · simp [hend]
  | reaching => rfl
  | reached => rfl

theorem primitives_events_tick (time : Time) :
    (p.tick timeline time).events.filterMap Event.primitive? = (p.tick timeline time).drawn := by
  have hnotice := p.notice_tick timeline time
  have hdraw : ∀ l : List Primitive, (l.map Event.draw).filterMap Event.primitive? = l := by
    intro l
    induction l with
    | nil => rfl
    | cons x l ih => simp [Event.primitive?, ih]
  rw [Tick.events, List.filterMap_append, hdraw]
  cases hn : (p.tick timeline time).notice with
  | none => simp
  | some e =>
    rw [hn] at hnotice
    have he : e.primitive? = none := hnotice
    simp [he]

theorem primitives_events_ticks (times : List Time) :
    ((p.ticks timeline times).flatMap Tick.events).filterMap Event.primitive? =
      (p.ticks timeline times).flatMap Tick.drawn := by
  induction times generalizing p with
  | nil => rfl
  | cons time times ih =>
    simp only [ticks, List.flatMap_cons, List.filterMap_append]
    rw [primitives_events_tick, ih]

theorem drawnUntil_tick (time : Time) :
    (p.tick timeline time).player.drawnUntil = max p.drawnUntil time :=
  Time.max_comm time p.drawnUntil

theorem drawnUntil_afterTicks (times : List Time) :
    (p.afterTicks timeline times).drawnUntil = times.foldl max p.drawnUntil := by
  induction times generalizing p with
  | nil => rfl
  | cons time times ih =>
    rw [afterTicks, List.foldl_cons, ← afterTicks, ih, drawnUntil_tick, List.foldl_cons]

theorem drawn_tick (time : Time) :
    (p.tick timeline time).drawn =
      (timeline.range p.drawnUntil (max p.drawnUntil time)).flatMap fun e => e.2.toList := by
  rw [Time.max_comm]
  rfl

/-- Each tick goes on where the one before it stopped. -/
theorem drawn_ticks (times : List Time) :
    (p.ticks timeline times).flatMap Tick.drawn =
      (timeline.range p.drawnUntil (times.foldl max p.drawnUntil)).flatMap fun e => e.2.toList := by
  induction times generalizing p with
  | nil => simp [ticks, Timeline.range_self]
  | cons time times ih =>
    rw [ticks, List.flatMap_cons, drawn_tick, ih, drawnUntil_tick, ← List.flatMap_append,
      Timeline.range_append timeline (Time.le_max_left _ _) (Time.le_foldl_max times _),
      List.foldl_cons]

end Player

theorem Timeline.playback_eq (timeline : Timeline) (times : List Time) :
    timeline.playback times =
      (timeline.toList.filter fun e => e.1 < Time.latest times).flatMap fun e => e.2.toList := by
  rw [playback, Player.primitives_events_ticks, Player.drawn_ticks]
  rw [Player.new, Time.foldl_max_zero, range_zero]

/-- Ticks at any times draw the buckets before the latest of them, in time order and each of them once.
The numbers of primitives they report add up, and the player ends at the latest time. So what is drawn
depends on nothing but that time. -/
theorem playback_of_ticks (timeline : Timeline) (times : List Time) :
    (∃ shown : List (Time × Array Primitive),
      (∀ time bucket, (time, bucket) ∈ shown ↔
        timeline.buckets[time]? = some bucket ∧ time < Time.latest times) ∧
      (shown.Pairwise fun a b => a.1 < b.1) ∧
      timeline.playback times = shown.flatMap fun e => e.2.toList) ∧
    ((Player.new.ticks timeline times).map fun tick => tick.drawn.length).sum =
      (timeline.playback times).length ∧
    (Player.new.afterTicks timeline times).drawnUntil = Time.latest times ∧
    ∀ others, Time.latest others = Time.latest times →
      timeline.playback others = timeline.playback times := by
  refine ⟨⟨_, ?_, ?_, timeline.playback_eq times⟩, ?_, ?_, ?_⟩
  · intro time bucket
    simp [Timeline.toList, Std.TreeMap.mem_toList_iff_getElem?_eq_some]
  · exact (Timeline.sorted_toList timeline.buckets).filter _
  · rw [Timeline.playback, Player.primitives_events_ticks, List.length_flatMap]
  · rw [Player.drawnUntil_afterTicks, Player.new, Time.foldl_max_zero]
  · intro others h
    rw [timeline.playback_eq, timeline.playback_eq, h]

/-- A grid, and 100 ms later the screen cleared. -/
def sampleReel : Timeline :=
  ((Timeline.new.push (.grid ⟨.zero, 10, 2, .white, .identity⟩)).advance 100).push .clear

/-- A tick that repeats a time and one that steps back add nothing. -/
theorem playback_sampleReel :
    Time.latest [101] = Time.latest [50, 50, 20, 101] ∧
      sampleReel.playback [101] = sampleReel.playback [50, 50, 20, 101] ∧
      (sampleReel.playback [50, 50, 20, 101]).map Primitive.kindName = ["grid", "clear"] :=
  have hlatest : Time.latest [101] = Time.latest [50, 50, 20, 101] := by decide
  ⟨hlatest, (playback_of_ticks sampleReel [50, 50, 20, 101]).2.2.2 [101] hlatest, by decide +kernel⟩

end TurtleGraphics
