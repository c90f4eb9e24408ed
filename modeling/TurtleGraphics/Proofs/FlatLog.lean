import TurtleGraphics.Proofs.TimelineEdits

/-!
# TurtleGraphics.Proofs.FlatLog

Timelines against a log without buckets. A `FlatLog` is the list of all that was written, each entry with
the time of that moment, and knows the index of the open path. It grows at its end only, and no other
entry than the open one ever changes. Whatever edits are made, the timeline shows what the log shows
(`editAll_agrees_with_log`).

A timeline keeps its entries by time, and the open path by its bucket and its index there.
`Timeline.entries` puts them in one list again. What makes this list the log is that the cursor never
moves back, so that the bucket in which is written is the last one (`Timeline.Records`).
-/

namespace TurtleGraphics

theorem Time.plus_eq_ofNat (a b : Time) :
    a.plus b = .ofNat (min (a.toNat + b.toNat) 18446744073709551615) := by
  rw [← UInt64.toNat_inj, toNat_plus, UInt64.toNat_ofNat_of_lt' (by simp only [UInt64.size]; omega)]
  rfl

/-! ## The log -/

/-- A primitive and the time at which it was written. -/
structure Entry where
  time : Time
  primitive : Primitive

/-- Changes the path of an entry; an entry that is no path stays. -/
def Entry.mapPath (f : Path → Path) (e : Entry) : Entry :=
  match e.primitive with
  | .path p => ⟨e.time, .path (f p)⟩
  | _ => e

structure FlatLog where
  entries : List Entry
  now : Time
  /-- Where the open path stands among the entries. -/
  openIndex : Option Nat

namespace FlatLog

def new : FlatLog :=
  ⟨[], 0, none⟩

def append (log : FlatLog) (p : Primitive) : FlatLog :=
  { log with entries := log.entries ++ [⟨log.now, p⟩] }

/-- Changes the open entry, if there is one. -/
def changeOpen (log : FlatLog) (f : Path → Path) : FlatLog :=
  match log.openIndex with
  | none => log
  | some i => { log with entries := log.entries.modify i (Entry.mapPath f) }

/-- An edit of the log. Time passes up to the last time that there is. -/
def edit (log : FlatLog) : Timeline.Edit → FlatLog
  | .push p => log.append p
  | .startPath p => { log.append (.path p) with openIndex := some log.entries.length }
  | .addPoint point => log.changeOpen fun p => { p with points := p.points.push point }
  | .fill => log.changeOpen fun p => { p with filled := true }
  | .closePath => { log with openIndex := none }
  | .advance ms =>
    { log with
      now := .ofNat (min (log.now.toNat + ms.toNat) 18446744073709551615)
      openIndex := none }
  | .finish _ => { log with openIndex := none }
  | .clear => new

def editAll (log : FlatLog) (edits : List Timeline.Edit) : FlatLog :=
  edits.foldl edit log

/-- The primitives written at a time, in order. -/
def writtenAt (log : FlatLog) (time : Time) : List Primitive :=
  (log.entries.filter fun e => e.time == time).map Entry.primitive

theorem getElem?_changeOpen {log : FlatLog} {i : Nat} (h : log.openIndex ≠ some i)
    (f : Path → Path) : (log.changeOpen f).entries[i]? = log.entries[i]? := by
  unfold changeOpen
  cases hopen : log.openIndex with
  | none => rfl
  | some j =>
    have hij : j ≠ i := fun hji => h (by rw [hopen, hji])
    simp [hij]

/-- An entry stays as it is, unless it is the open one or all is cleared. -/
theorem getElem?_edit {log : FlatLog} {i : Nat} (hi : i < log.entries.length)
    (hopen : log.openIndex ≠ some i) {e : Timeline.Edit} (he : e ≠ .clear) :
    (log.edit e).entries[i]? = log.entries[i]? := by
  cases e with
  | push p => exact List.getElem?_append_left hi
  | startPath p => exact List.getElem?_append_left hi
  | addPoint point => exact getElem?_changeOpen hopen _
  | fill => exact getElem?_changeOpen hopen _
  | closePath => rfl
  | advance ms => rfl
  | finish pose => rfl
  | clear => exact absurd rfl he

end FlatLog

namespace Timeline

/-! ## The entries of a timeline -/

/-- The primitives of a bucket with its time. -/
def stamped (e : Time × Array Primitive) : List Entry :=
  e.2.toList.map (Entry.mk e.1)

/-- All that was written, with the times of the buckets. -/
def entries (t : Timeline) : List Entry :=
  t.toList.flatMap stamped

variable {t : Timeline} {earlier : List (Time × Array Primitive)} {bucket : Array Primitive}

theorem map_primitive_entries (t : Timeline) : t.entries.map Entry.primitive = t.primitives := by
  simp only [entries, primitives, List.map_flatMap, stamped, List.map_map]
  congr
  funext e
  exact List.map_id _

theorem entries_of_toList {time : Time} (h : t.toList = earlier ++ [(time, bucket)]) :
    t.entries = earlier.flatMap stamped ++ bucket.toList.map (Entry.mk time) := by
  rw [entries, h]
  simp [stamped]

theorem length_flatMap_stamped (l : List (Time × Array Primitive)) :
    (l.flatMap stamped).length = (l.flatMap fun e => e.2.toList).length := by
  simp [List.length_flatMap, stamped]

theorem entries_push (h : t.AtCursor) (p : Primitive) :
    (t.push p).entries = t.entries ++ [⟨t.now, p⟩] := by
  obtain ⟨earlier, bucket, h⟩ := h
  rw [push, entries_of_toList h, entries_of_toList (toList_updateNow h _)]
  simp

theorem entries_advance (h : t.AtCursor) (ms : Time) : (t.advance ms).entries = t.entries := by
  obtain ⟨earlier, bucket, h⟩ := h
  rcases toList_advance h ms with ⟨-, hl⟩ | hl
  · rw [entries, hl, entries]
  · rw [entries_of_toList hl, entries]
    simp

/-! ## Buckets as parts of the entries -/

theorem filter_stamped_of_ne {time : Time} {l : List (Time × Array Primitive)}
    (h : ∀ e ∈ l, e.1 ≠ time) : ((l.flatMap stamped).filter fun e => e.time == time) = [] := by
  rw [List.filter_eq_nil_iff]
  intro x hx
  obtain ⟨e, he, hxe⟩ := List.mem_flatMap.1 hx
  obtain ⟨p, -, rfl⟩ := List.mem_map.1 hxe
  simpa using h e he

theorem filter_stamped_self (time : Time) (bucket : Array Primitive) :
    (((stamped (time, bucket)).filter fun e => e.time == time).map Entry.primitive) =
      bucket.toList := by
  have hall : ((stamped (time, bucket)).filter fun e => e.time == time) = stamped (time, bucket) := by
    rw [List.filter_eq_self]
    intro x hx
    obtain ⟨p, -, rfl⟩ := List.mem_map.1 hx
    simp
  rw [hall, stamped, List.map_map]
  exact List.map_id _

theorem bucket_eq_filter {time : Time} (h : (time, bucket) ∈ t.toList) :
    bucket.toList = (t.entries.filter fun e => e.time == time).map Entry.primitive := by
  obtain ⟨before, after, hsplit⟩ := List.append_of_mem h
  -- times are in order, so no bucket before or behind has the same one
  have hsorted : t.toList.Pairwise fun a b => a.1 < b.1 := sorted_toList t.buckets
  rw [hsplit, List.pairwise_append, List.pairwise_cons] at hsorted
  obtain ⟨-, ⟨hafter, -⟩, hbefore⟩ := hsorted
  have hne : ∀ e ∈ before, e.1 ≠ time := by
    rintro e he rfl
    exact UInt64.lt_irrefl _ (hbefore e he (e.1, bucket) List.mem_cons_self)
  have hne' : ∀ e ∈ after, e.1 ≠ time := by
    rintro e he rfl
    exact UInt64.lt_irrefl _ (hafter e he)
  rw [entries, hsplit, List.flatMap_append, List.flatMap_cons, List.filter_append,
    List.filter_append, filter_stamped_of_ne hne, filter_stamped_of_ne hne', List.nil_append,
    List.append_nil, filter_stamped_self]

theorem bucketAt_eq_filter (t : Timeline) (time : Time) :
    (t.bucketAt time).toList = (t.entries.filter fun e => e.time == time).map Entry.primitive := by
  rw [bucketAt, Std.TreeMap.getD_eq_getD_getElem?]
  cases h : t.buckets[time]? with
  | some bucket => exact bucket_eq_filter (Std.TreeMap.mem_toList_iff_getElem?_eq_some.2 h)
  | none =>
    rw [entries, filter_stamped_of_ne]
    · rfl
    · rintro ⟨k, b⟩ he rfl
      rw [toList, Std.TreeMap.mem_toList_iff_getElem?_eq_some, h] at he
      cases he

/-! ## The open path as an entry -/

namespace Open

variable {front back : List Primitive} {p : Path}

theorem push (h : t.Open front p back) (q : Primitive) : (t.push q).Open front p (back ++ [q]) := by
  obtain ⟨earlier, bucket, before, hl, hb, ho, rfl⟩ := h
  exact ⟨earlier, bucket.push q, before, toList_updateNow hl _, by simp [hb], ho, rfl⟩

/-- The open path is the entry behind `front.length` others, and this entry alone changes with it. -/
theorem entries_modifyOpen? (h : t.Open front p back) {f : Path → Path} {t' : Timeline}
    (ht : t.modifyOpen? f = some t') :
    t'.now = t.now ∧ t'.entries = t.entries.modify front.length (Entry.mapPath f) := by
  have hpath := h.openPath?_eq
  obtain ⟨earlier, bucket, before, hl, hb, ho, rfl⟩ := h
  obtain ⟨t'', ht'', hnow, -, hl'⟩ := toList_modifyOpen? hl ho (by rw [hpath]; rfl) f
  obtain rfl : t' = t'' := Option.some.inj (ht.symm.trans ht'')
  have hlength : ((earlier.flatMap fun e => e.2.toList) ++ before).length =
      (earlier.flatMap stamped ++ before.map (Entry.mk t.now)).length := by
    rw [List.length_append, List.length_append, List.length_map, length_flatMap_stamped]
  refine ⟨hnow, ?_⟩
  rw [entries_of_toList hl', entries_of_toList hl, Array.toList_modify, hb, modify_middle, hlength]
  simp only [List.map_append, List.map_cons, ← List.append_assoc]
  rw [modify_middle]
  rfl

end Open

/-! ## Edits -/

/-- The open path has this index among the entries. -/
def OpenAt (t : Timeline) : Option Nat → Prop
  | none => t.openPath = none
  | some i => ∃ front p back, t.Open front p back ∧ i = front.length

/-- The timeline holds what is in the log, and goes on where the log does. -/
structure Records (t : Timeline) (log : FlatLog) : Prop where
  atCursor : t.AtCursor
  now : t.now = log.now
  entries : t.entries = log.entries
  openAt : t.OpenAt log.openIndex

theorem records_new : Records new FlatLog.new :=
  ⟨atCursor_new, rfl, rfl, rfl⟩

namespace Records

variable {log : FlatLog}

theorem push (h : t.Records log) (p : Primitive) : (t.push p).Records (log.append p) := by
  refine ⟨h.atCursor.push p, h.now, ?_, ?_⟩
  · rw [entries_push h.atCursor, h.entries, h.now]
    rfl
  · have hopen := h.openAt
    simp only [FlatLog.append]
    cases hi : log.openIndex with
    | none => rw [hi] at hopen; exact hopen
    | some i =>
      rw [hi] at hopen
      obtain ⟨front, q, back, hopen, hfront⟩ := hopen
      exact ⟨front, q, back ++ [p], hopen.push p, hfront⟩

theorem startPath (h : t.Records log) (p : Path) :
    (t.startPath p).Records (log.edit (.startPath p)) := by
  have hpush := h.push (.path p)
  refine ⟨hpush.atCursor, hpush.now, hpush.entries, t.primitives, p, [],
    h.atCursor.open_startPath p, ?_⟩
  rw [← map_primitive_entries, List.length_map, h.entries]

theorem closePath (h : t.Records log) : t.closePath.Records { log with openIndex := none } :=
  ⟨h.atCursor, h.now, h.entries, rfl⟩

theorem advance (h : t.Records log) (ms : Time) :
    (t.advance ms).Records (log.edit (.advance ms)) := by
  refine ⟨h.atCursor.advance ms, ?_, ?_, rfl⟩
  · rw [FlatLog.edit, ← h.now, ← Time.plus_eq_ofNat]
    rfl
  · rw [entries_advance h.atCursor, h.entries]
    rfl

theorem modifyOpen (h : t.Records log) (f : Path → Path) :
    ((t.modifyOpen? f).getD t).Records (log.changeOpen f) ∧
      (t.modifyOpen? f).isSome = log.openIndex.isSome := by
  have hopen := h.openAt
  unfold FlatLog.changeOpen
  cases hi : log.openIndex with
  | none =>
    rw [hi] at hopen
    rw [modifyOpen?_of_closed hopen]
    exact ⟨h, rfl⟩
  | some i =>
    rw [hi] at hopen
    obtain ⟨front, p, back, hopen, rfl⟩ := hopen
    obtain ⟨t', ht, hopen'⟩ := hopen.modifyOpen? f
    obtain ⟨hnow, hentries⟩ := hopen.entries_modifyOpen? ht
    rw [ht]
    refine ⟨⟨hopen'.atCursor, hnow.trans h.now, ?_, ?_⟩, rfl⟩
    · rw [← h.entries]
      exact hentries
    · exact ⟨front, f p, back, hopen', rfl⟩

theorem edit (h : t.Records log) (e : Edit) : (t.edit e).Records (log.edit e) := by
  cases e with
  | push p => exact h.push p
  | startPath p => exact h.startPath p
  | addPoint point => exact (h.modifyOpen (Path.extend point)).1
  | fill => exact (h.modifyOpen Path.fill).1
  | closePath => exact h.closePath
  | advance ms => exact h.advance ms
  | finish pose => exact ⟨h.atCursor, h.now, h.entries, rfl⟩
  | clear => exact records_new

theorem editAll (h : t.Records log) (edits : List Edit) :
    (t.editAll edits).Records (log.editAll edits) := by
  induction edits generalizing t log with
  | nil => exact h
  | cons e edits ih => exact ih (h.edit e)

theorem primitives_eq (h : t.Records log) : t.primitives = log.entries.map Entry.primitive := by
  rw [← h.entries, map_primitive_entries]

end Records

/-! ## What is shown -/

/-- The timeline and the log show the same: all primitives in order, those of each time, how many there
are, and whether there is an open path to add a point to or to fill. The next edit changes no primitive
but the open path, unless it clears all. -/
structure AgreesWith (t : Timeline) (log : FlatLog) : Prop where
  primitives : t.primitives = log.entries.map Entry.primitive
  buckets : ∀ time bucket, (time, bucket) ∈ t.toList → bucket.toList = log.writtenAt time
  bucketAt : ∀ time, (t.bucketAt time).toList = log.writtenAt time
  length : t.length = log.entries.length
  addPoint : ∀ point, (t.addPoint? point).isSome = log.openIndex.isSome
  fill : t.fillOpen?.isSome = log.openIndex.isSome
  kept : ∀ e i, e ≠ .clear → i < t.length → log.openIndex ≠ some i →
    (t.edit e).primitives[i]? = t.primitives[i]?

/-- A timeline is an append-only log: after any edits of a new one it shows what the same edits make of
a new log. -/
theorem editAll_agrees_with_log (edits : List Edit) :
    (new.editAll edits).AgreesWith (FlatLog.new.editAll edits) := by
  have h := records_new.editAll edits
  have hlength : (new.editAll edits).length = (FlatLog.new.editAll edits).entries.length := by
    rw [Timeline.length, h.primitives_eq, List.length_map]
  refine ⟨h.primitives_eq, ?_, ?_, hlength, ?_, (h.modifyOpen Path.fill).2, ?_⟩
  · intro time bucket hmem
    rw [bucket_eq_filter hmem, h.entries]
    rfl
  · intro time
    rw [bucketAt_eq_filter, h.entries]
    rfl
  · intro point
    exact (h.modifyOpen (Path.extend point)).2
  · intro e i he hi hopen
    rw [hlength] at hi
    rw [h.primitives_eq, (h.edit e).primitives_eq, List.getElem?_map, List.getElem?_map,
      FlatLog.getElem?_edit hi hopen he]

end Timeline
end TurtleGraphics
