import TurtleGraphics.Proofs.TimelineEdits

/-!
# TurtleGraphics.Proofs.Coherence

How the parts of a timeline fit together. A timeline stores more than it shows: the end besides the
cursor, and the open path as a place in the map of buckets. `Timeline.Coherent` says what these have to do
with each other. Every edit keeps it, so no sequence of edits leaves the stored place pointing outside
its bucket or at something that is no path, and the open path is found whenever there is one
(`editAll_coherent`).
-/

namespace TurtleGraphics
namespace Timeline

/-- The cursor is at the end, behind all other buckets, and the place of the open path is that of a path
in the bucket at the cursor. -/
structure Coherent (t : Timeline) : Prop where
  endTime : t.endTime = t.now
  first : 0 ∈ t.buckets
  cursor : t.now ∈ t.buckets
  latest : ∀ time ∈ t.buckets, time ≤ t.now
  target : ∀ place, t.openPath = some place →
    place.time = t.now ∧ ∃ p, (t.bucketAt t.now)[place.index]? = some (.path p)

/-- Nothing is written beyond the end. -/
structure InTime (t : Timeline) : Prop where
  now : t.now ≤ t.endTime
  buckets : ∀ time ∈ t.buckets, time ≤ t.endTime

/-- The open path is there to be read, to get a point and to be filled exactly if one is said to be
open. -/
structure FindsOpenPath (t : Timeline) : Prop where
  read : t.openPath?.isSome = t.isPathOpen
  addPoint : ∀ point, (t.addPoint? point).isSome = t.isPathOpen
  fill : t.fillOpen?.isSome = t.isPathOpen

variable {t : Timeline}

/-! ## Buckets after a change -/

theorem mem_updateNow {f : Array Primitive → Array Primitive} {time : Time} :
    time ∈ (t.updateNow f).buckets ↔ time = t.now ∨ time ∈ t.buckets := by
  by_cases hnow : t.now = time
  · simp [updateNow, hnow]
  · simp [updateNow, Std.TreeMap.mem_alter, hnow, Ne.symm hnow]

theorem bucketAt_updateNow (t : Timeline) (f : Array Primitive → Array Primitive) :
    (t.updateNow f).bucketAt t.now = f (t.bucketAt t.now) := by
  simp [bucketAt, updateNow, Std.TreeMap.getD_eq_getD_getElem?]

theorem bucketAt_modify (t : Timeline) (time : Time) (index : Nat) (g : Primitive → Primitive) :
    bucketAt { t with buckets := t.buckets.modify time (·.modify index g) } time =
      (t.bucketAt time).modify index g := by
  simp only [bucketAt, Std.TreeMap.getD_eq_getD_getElem?, Std.TreeMap.getElem?_modify_self]
  cases t.buckets[time]? with
  | none => rfl
  | some bucket => rfl

/-! ## What each operation keeps -/

theorem coherent_new : Coherent new := by
  refine ⟨rfl, by simp [new], by simp [new], fun time htime => ?_, by simp [new]⟩
  have hzero : 0 = time := by simpa [new] using htime
  rw [← hzero]
  exact UInt64.le_refl 0

namespace Coherent

theorem closed (h : t.Coherent) (pose : Option Pose) :
    Coherent { t with openPath := none, finalPose := pose } :=
  ⟨h.endTime, h.first, h.cursor, h.latest, by simp⟩

/-- Writing at the cursor, if it leaves the paths of the bucket where they are. -/
theorem updateNow (h : t.Coherent) {f : Array Primitive → Array Primitive}
    (hf : ∀ (bucket : Array Primitive) (i : Nat) (p : Path), bucket[i]? = some (.path p) →
      (f bucket)[i]? = some (.path p)) : (t.updateNow f).Coherent := by
  refine ⟨h.endTime, mem_updateNow.2 (.inr h.first), mem_updateNow.2 (.inl rfl), ?_, ?_⟩
  · intro time htime
    rcases mem_updateNow.1 htime with rfl | htime
    · exact UInt64.le_refl _
    · exact h.latest time htime
  · intro place hplace
    obtain ⟨htime, p, hp⟩ := h.target place hplace
    refine ⟨htime, p, ?_⟩
    change ((t.updateNow f).bucketAt t.now)[place.index]? = _
    rw [bucketAt_updateNow]
    exact hf _ _ _ hp

theorem push (h : t.Coherent) (q : Primitive) : (t.push q).Coherent := by
  refine h.updateNow fun bucket i p hp => ?_
  obtain ⟨hi, -⟩ := Array.getElem?_eq_some_iff.1 hp
  rw [Array.getElem?_push_lt hi]
  exact (Array.getElem?_eq_getElem hi).symm.trans hp

theorem startPath (h : t.Coherent) (p : Path) : (t.startPath p).Coherent := by
  have hpush := h.push (.path p)
  refine ⟨hpush.endTime, hpush.first, hpush.cursor, hpush.latest, ?_⟩
  rintro place ⟨⟩
  refine ⟨rfl, p, ?_⟩
  change ((t.push (.path p)).bucketAt t.now)[_]? = _
  rw [Timeline.push, bucketAt_updateNow]
  exact Array.getElem?_push_size

/-- The cursor is moved to a later time, so the new end is where it arrives. -/
theorem advance (h : t.Coherent) (ms : Time) : (t.advance ms).Coherent := by
  have hlater : t.now ≤ t.now.plus ms := Time.le_plus _ _
  have hend : max t.endTime (t.now.plus ms) = t.now.plus ms := by
    rw [h.endTime, Time.max_def, if_pos hlater]
  refine ⟨hend, mem_updateNow.2 (.inr h.first), mem_updateNow.2 (.inl rfl), ?_,
    by simp [Timeline.advance, Timeline.updateNow]⟩
  intro time htime
  rcases mem_updateNow.1 htime with rfl | htime
  · exact UInt64.le_refl _
  · exact UInt64.le_trans (h.latest time htime) hlater

/-- The place of an open path is that of a path, so the path is found. -/
theorem openPath?_eq (h : t.Coherent) {place : Place} (hplace : t.openPath = some place) :
    ∃ p, (t.bucketAt t.now)[place.index]? = some (.path p) ∧ t.openPath? = some p := by
  obtain ⟨htime, p, hp⟩ := h.target place hplace
  refine ⟨p, hp, ?_⟩
  rw [openPath?, hplace]
  simp only [htime, hp]
  rfl

theorem modifyOpen (h : t.Coherent) (f : Path → Path) : ((t.modifyOpen? f).getD t).Coherent := by
  cases hplace : t.openPath with
  | none =>
    rw [modifyOpen?_of_closed hplace]
    exact h
  | some place =>
    obtain ⟨htime, -⟩ := h.target place hplace
    obtain ⟨p, hp, hopen⟩ := h.openPath?_eq hplace
    have hchange : t.modifyOpen? f = some { t with
        buckets := t.buckets.modify t.now (·.modify place.index (Primitive.mapPath f)) } := by
      simp [modifyOpen?, hplace, hopen, htime]
    rw [hchange, Option.getD_some]
    refine ⟨h.endTime, Std.TreeMap.mem_modify.2 h.first, Std.TreeMap.mem_modify.2 h.cursor,
      fun time hold => h.latest time (Std.TreeMap.mem_modify.1 hold), fun place' hplace' => ?_⟩
    obtain rfl : place = place' := Option.some.inj (hplace.symm.trans hplace')
    refine ⟨htime, f p, ?_⟩
    rw [bucketAt_modify, Array.getElem?_modify, if_pos rfl, hp]
    rfl

theorem edit (h : t.Coherent) (e : Edit) : (t.edit e).Coherent := by
  cases e with
  | push p => exact h.push p
  | startPath p => exact h.startPath p
  | addPoint point => exact h.modifyOpen _
  | fill => exact h.modifyOpen _
  | closePath => exact h.closed t.finalPose
  | advance ms => exact h.advance ms
  | finish pose => exact h.closed (some pose)
  | clear => exact coherent_new

theorem inTime (h : t.Coherent) : t.InTime := by
  refine ⟨?_, fun time htime => ?_⟩
  · rw [h.endTime]
    exact UInt64.le_refl _
  · rw [h.endTime]
    exact h.latest time htime

theorem isSome_modifyOpen? (h : t.Coherent) (f : Path → Path) :
    (t.modifyOpen? f).isSome = t.isPathOpen := by
  cases hplace : t.openPath with
  | none => simp [modifyOpen?_of_closed hplace, isPathOpen, hplace]
  | some place =>
    obtain ⟨p, -, hopen⟩ := h.openPath?_eq hplace
    simp [modifyOpen?, isPathOpen, hplace, hopen]

theorem findsOpenPath (h : t.Coherent) : t.FindsOpenPath := by
  refine ⟨?_, fun point => h.isSome_modifyOpen? _, h.isSome_modifyOpen? _⟩
  cases hplace : t.openPath with
  | none => simp [openPath?, isPathOpen, hplace]
  | some place =>
    obtain ⟨p, -, hopen⟩ := h.openPath?_eq hplace
    simp [isPathOpen, hplace, hopen]

end Coherent

theorem coherent_editAll (edits : List Edit) : (new.editAll edits).Coherent :=
  editAll_invariant (fun e h => h.edit e) coherent_new edits

/-- Whatever edits are made of a new timeline, its parts fit together, and its open path is found. -/
theorem editAll_coherent (edits : List Edit) :
    (new.editAll edits).Coherent ∧ (new.editAll edits).FindsOpenPath := by
  have h := coherent_editAll edits
  exact ⟨h, h.findsOpenPath⟩

end Timeline
end TurtleGraphics
