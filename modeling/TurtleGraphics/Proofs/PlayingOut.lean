import TurtleGraphics.Proofs.Notices

/-!
# TurtleGraphics.Proofs.PlayingOut

Which timelines can be played to their end. A player is past the end of a timeline only at a later time,
and the write cursor stops at the last time there is. So a timeline is played out by a tick at a given
time exactly if the waits in it add up to less (`playsOut_iff`), where the sum is one of natural numbers
and does not stop. If it comes to the last time or beyond, no tick is late enough: the primitives written
after the last wait are never drawn, and the pose is never announced.

The cursor of a timeline shows the sum of the waits, cut off at the last time (`Timeline.Waited`); every
edit preserves that.
-/

namespace TurtleGraphics

namespace Timeline

/-! ## The time that edits take -/

/-- The time that has been waited after an edit. -/
def Edit.after (waited : Nat) : Edit → Nat
  | .advance ms => waited + ms.toNat
  | .clear => 0
  | _ => waited

/-- The time that is waited in some edits, or since the last of them that clears the timeline. -/
def waited (edits : List Edit) : Nat :=
  edits.foldl Edit.after 0

/-- The cursor stands at the time that has been waited. -/
def Waited (t : Timeline) (ms : Nat) : Prop :=
  t.now.toNat = min ms Time.last

theorem waited_new : new.Waited 0 :=
  rfl

namespace Waited

variable {t : Timeline} {waited : Nat}

theorem advance (h : t.Waited waited) (ms : Time) : (t.advance ms).Waited (waited + ms.toNat) := by
  have hnow : (t.advance ms).now = t.now.plus ms := rfl
  rw [Waited, hnow, Time.toNat_plus, h]
  omega

theorem modifyOpen (h : t.Waited waited) (f : Path → Path) :
    ((t.modifyOpen? f).getD t).Waited waited := by
  unfold modifyOpen?
  cases t.openPath with
  | none => exact h
  | some place =>
    dsimp only
    split
    · exact h
    · exact h

theorem edit (h : t.Waited waited) (e : Edit) : (t.edit e).Waited (e.after waited) := by
  cases e with
  | addPoint point => exact h.modifyOpen _
  | fill => exact h.modifyOpen _
  | advance ms => exact h.advance ms
  | clear => exact waited_new
  | push p => exact h
  | startPath p => exact h
  | closePath => exact h
  | finish pose => exact h

theorem editAll (h : t.Waited waited) (edits : List Edit) :
    (t.editAll edits).Waited (edits.foldl Edit.after waited) := by
  induction edits generalizing t waited with
  | nil => exact h
  | cons e edits ih => exact ih (h.edit e)

/-- A time is past the end exactly if less was waited; that the end is cut off makes no difference. -/
theorem endTime_lt_iff (h : t.Waited waited) (hcoherent : t.Coherent) (time : Time) :
    t.endTime < time ↔ waited < time.toNat := by
  have hlast := time.toNat_le_last
  rw [UInt64.lt_iff_toNat_lt, hcoherent.endTime, h]
  omega

end Waited

/-! ## Playing out -/

/-- The tick of a new player at a time draws all primitives and reaches the end. -/
def PlaysOut (t : Timeline) (time : Time) : Prop :=
  (Player.new.tick t time).drawn.length = t.length ∧
    (Player.new.tick t time).player.phase = .reaching

theorem phase_tick_new (t : Timeline) (time : Time) :
    (Player.new.tick t time).player.phase = .reaching ↔ t.endTime < time := by
  have hmax : max time 0 = time := by
    rw [Time.max_comm, Time.zero_max]
  simp only [Player.tick, Player.nextPhase, Player.new, hmax]
  by_cases hend : t.endTime < time
  · simp [hend]
  · simp [hend]

theorem InTime.drawn_tick_new {t : Timeline} (h : t.InTime) {time : Time} (htime : t.endTime < time) :
    (Player.new.tick t time).drawn = t.primitives := by
  rw [Player.drawn_tick, Player.new, Time.zero_max, h.range_all htime]
  rfl

end Timeline

open Timeline

/-- A timeline that was made by edits is played out by the tick of a new player exactly if that comes
after the time waited, and then its primitives are drawn in order. So it can be played out exactly if the
time waited is before the last time. -/
theorem playsOut_iff (edits : List Edit) :
    (∀ time, (new.editAll edits).PlaysOut time ↔ waited edits < time.toNat) ∧
    (∀ time, (new.editAll edits).PlaysOut time →
      (Player.new.tick (new.editAll edits) time).drawn = (new.editAll edits).primitives) ∧
    ((∃ time, (new.editAll edits).PlaysOut time) ↔ waited edits < Time.last) := by
  have hcoherent : (new.editAll edits).Coherent := coherent_editAll edits
  have hin : (new.editAll edits).InTime := hcoherent.inTime
  have hwaited : (new.editAll edits).Waited (waited edits) := waited_new.editAll edits
  have hplays : ∀ time, (new.editAll edits).PlaysOut time ↔ waited edits < time.toNat := by
    intro time
    rw [← hwaited.endTime_lt_iff hcoherent]
    constructor
    · rintro ⟨-, hphase⟩
      exact (phase_tick_new _ time).1 hphase
    · intro hend
      exact ⟨by rw [hin.drawn_tick_new hend]; rfl, (phase_tick_new _ time).2 hend⟩
  refine ⟨hplays, ?_, ?_⟩
  · intro time h
    exact hin.drawn_tick_new ((phase_tick_new _ time).1 h.2)
  · constructor
    · rintro ⟨time, h⟩
      exact Nat.lt_of_lt_of_le ((hplays time).1 h) time.toNat_le_last
    · intro h
      exact ⟨UInt64.ofNat Time.last, (hplays _).2 h⟩

theorem playsOut_after_pause :
    (new.editAll [.push .clear, .advance 100, .push .clear]).PlaysOut 101 :=
  ((playsOut_iff _).1 101).2 (by decide +kernel)

/-- The screen is cleared, then again at the last time. -/
def endlessReel : List Edit :=
  [.push .clear, .advance (UInt64.ofNat Time.last), .push .clear]

theorem not_playsOut_endlessReel : ¬∃ time, (new.editAll endlessReel).PlaysOut time := by
  rintro ⟨time, -, hphase⟩
  have hend : (new.editAll endlessReel).endTime < time := (phase_tick_new _ time).1 hphase
  have hlast : (new.editAll endlessReel).endTime.toNat = Time.last := by decide +kernel
  have htime := time.toNat_le_last
  rw [UInt64.lt_iff_toNat_lt] at hend
  omega

end TurtleGraphics
