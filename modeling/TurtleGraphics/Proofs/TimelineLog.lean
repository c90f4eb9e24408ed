import TurtleGraphics.Picture.Timeline

/-!
# TurtleGraphics.Proofs.TimelineLog

A timeline as a list of primitives. Buckets are kept in a map, and all writing happens in the last of
them, the one at the cursor (`Timeline.AtCursor`). So each operation on the map is an operation at the
end of the list `Timeline.primitives`; `Timeline.Open` says which primitive of that list is the open
path. Proofs about drawings use these equations and do not look into the map.
-/

namespace TurtleGraphics

/-! ## Times -/

/-- The last time, in milliseconds. -/
def Time.last : Nat :=
  UInt64.size - 1

theorem Time.toNat_le_last (time : Time) : time.toNat ≤ last := by
  have := time.toNat_lt
  simp only [last, UInt64.size]
  omega

/-- Times add up as natural numbers do, up to the last time. -/
theorem Time.toNat_plus (a b : Time) : (a.plus b).toNat = min (a.toNat + b.toNat) last := by
  unfold plus
  split
  · rename_i h
    rw [UInt64.toNat_add, Nat.mod_eq_of_lt h]
    simp only [last]
    omega
  · rename_i h
    have hlast : (UInt64.ofNat (UInt64.size - 1)).toNat = last := rfl
    rw [hlast]
    simp only [last]
    omega

theorem Time.le_plus (a b : Time) : a ≤ a.plus b := by
  have ha := a.toNat_le_last
  rw [UInt64.le_iff_toNat_le, toNat_plus]
  omega

theorem Time.max_def (a b : Time) : max a b = if a ≤ b then b else a :=
  rfl

theorem Time.max_comm (a b : Time) : max a b = max b a := by
  simp only [max_def]
  by_cases hab : a ≤ b
  · by_cases hba : b ≤ a
    · rw [UInt64.le_antisymm hab hba]
    · simp [hab, hba]
  · simp [hab, UInt64.le_of_lt (UInt64.not_le.1 hab)]

theorem Time.le_max_left (a b : Time) : a ≤ max a b := by
  rw [max_def]
  split
  · assumption
  · exact UInt64.le_refl a

namespace Timeline

/-! ## Buckets in time order -/

theorem sorted_toList (m : Std.TreeMap Time (Array Primitive)) :
    m.toList.Pairwise fun a b => a.1 < b.1 :=
  m.ordered_keys_toList.imp Std.compare_eq_lt.1

/-- A map is known by a sorted list of its entries. -/
theorem toList_eq_of_sorted {m : Std.TreeMap Time (Array Primitive)}
    {l : List (Time × Array Primitive)} (hl : l.Pairwise fun a b => a.1 < b.1)
    (hm : ∀ time bucket, (time, bucket) ∈ l ↔ m[time]? = some bucket) : m.toList = l := by
  have hnodup : ∀ {l : List (Time × Array Primitive)}, (l.Pairwise fun a b => a.1 < b.1) →
      l.Nodup := by
    intro l h
    refine h.imp ?_
    rintro a _ hlt rfl
    exact UInt64.lt_irrefl _ hlt
  refine List.Perm.eq_of_pairwise ?_ (sorted_toList m) hl
    ((List.perm_ext_iff_of_nodup (hnodup (sorted_toList m)) (hnodup hl)).2 ?_)
  · intro a b _ _ hab hba
    exact absurd (UInt64.lt_trans hab hba) (UInt64.lt_irrefl _)
  · rintro ⟨time, bucket⟩
    rw [Std.TreeMap.mem_toList_iff_getElem?_eq_some, hm]

section LastBucket

variable {m : Std.TreeMap Time (Array Primitive)} {earlier : List (Time × Array Primitive)}
  {time : Time} {bucket : Array Primitive}

theorem lt_of_mem_earlier (h : m.toList = earlier ++ [(time, bucket)]) :
    ∀ e ∈ earlier, e.1 < time := by
  have hs := sorted_toList m
  rw [h] at hs
  exact fun e he => (List.pairwise_append.1 hs).2.2 e he _ (List.mem_singleton_self _)

theorem getElem?_last (h : m.toList = earlier ++ [(time, bucket)]) : m[time]? = some bucket := by
  rw [← Std.TreeMap.mem_toList_iff_getElem?_eq_some, h]
  simp

/-- A map whose last entry is replaced, and which otherwise agrees with another. -/
theorem toList_replace_last {m' : Std.TreeMap Time (Array Primitive)} {new : Array Primitive}
    (h : m.toList = earlier ++ [(time, bucket)]) (hnew : m'[time]? = some new)
    (hrest : ∀ k, k ≠ time → m'[k]? = m[k]?) : m'.toList = earlier ++ [(time, new)] := by
  have hs := sorted_toList m
  have hlt := lt_of_mem_earlier h
  rw [h, List.pairwise_append] at hs
  refine toList_eq_of_sorted (List.pairwise_append.2 ⟨hs.1, by simp, ?_⟩) ?_
  · intro a ha b hb
    rw [List.mem_singleton.1 hb]
    exact hlt a ha
  · intro k v
    by_cases hk : k = time
    · subst hk
      have hno : (k, v) ∉ earlier := fun hv => UInt64.lt_irrefl _ (hlt _ hv)
      simp [hno, hnew, eq_comm]
    · rw [hrest k hk, ← Std.TreeMap.mem_toList_iff_getElem?_eq_some, h]
      simp [hk]

end LastBucket

/-! ## The cursor -/

/-- The last bucket is the one at the cursor. -/
def AtCursor (t : Timeline) : Prop :=
  ∃ earlier bucket, t.toList = earlier ++ [(t.now, bucket)]

variable {t : Timeline}

theorem atCursor_new : AtCursor new :=
  ⟨[], #[], rfl⟩

theorem AtCursor.closePath (h : t.AtCursor) : t.closePath.AtCursor :=
  h

theorem bucketAt_now {earlier : List (Time × Array Primitive)} {bucket : Array Primitive}
    (h : t.toList = earlier ++ [(t.now, bucket)]) : t.bucketAt t.now = bucket := by
  rw [bucketAt, Std.TreeMap.getD_eq_getD_getElem?, getElem?_last h]
  rfl

theorem toList_updateNow {earlier : List (Time × Array Primitive)} {bucket : Array Primitive}
    (h : t.toList = earlier ++ [(t.now, bucket)]) (f : Array Primitive → Array Primitive) :
    (t.updateNow f).toList = earlier ++ [(t.now, f bucket)] := by
  refine toList_replace_last h ?_ ?_
  · rw [updateNow, Std.TreeMap.getElem?_alter]
    simp [getElem?_last h]
  · intro k hk
    rw [updateNow, Std.TreeMap.getElem?_alter]
    simp [Ne.symm hk]

theorem AtCursor.push (h : t.AtCursor) (p : Primitive) : (t.push p).AtCursor := by
  obtain ⟨earlier, bucket, h⟩ := h
  exact ⟨earlier, bucket.push p, toList_updateNow h _⟩

theorem primitives_of_toList {earlier : List (Time × Array Primitive)} {bucket : Array Primitive}
    {time : Time} (h : t.toList = earlier ++ [(time, bucket)]) :
    t.primitives = (earlier.flatMap fun e => e.2.toList) ++ bucket.toList := by
  rw [primitives, h]
  simp

theorem primitives_push (h : t.AtCursor) (p : Primitive) :
    (t.push p).primitives = t.primitives ++ [p] := by
  obtain ⟨earlier, bucket, h⟩ := h
  rw [push, primitives_of_toList h, primitives_of_toList (toList_updateNow h _)]
  simp

/-- Moving the cursor leaves the last bucket where it is, or opens an empty one behind it. -/
theorem toList_advance {earlier : List (Time × Array Primitive)} {bucket : Array Primitive}
    (h : t.toList = earlier ++ [(t.now, bucket)]) (ms : Time) :
    (t.advance ms).now = t.now ∧ (t.advance ms).toList = t.toList ∨
      (t.advance ms).toList = t.toList ++ [((t.advance ms).now, #[])] := by
  by_cases hnow : t.now.plus ms = t.now
  · refine .inl ⟨hnow, ?_⟩
    rw [h]
    refine toList_replace_last h ?_ ?_
    · simp [advance, updateNow, hnow, getElem?_last h]
    · intro k hk
      simp [advance, updateNow, hnow, Std.TreeMap.getElem?_alter, Ne.symm hk]
  · -- nothing was written so late, so the new bucket is the last one
    right
    have hlt : t.now < t.now.plus ms := UInt64.lt_of_le_of_ne (Time.le_plus _ _) (Ne.symm hnow)
    have hbefore : ∀ e ∈ t.toList, e.1 < t.now.plus ms := by
      intro e he
      rw [h] at he
      rcases List.mem_append.1 he with he | he
      · exact UInt64.lt_trans (lt_of_mem_earlier h e he) hlt
      · rw [List.mem_singleton.1 he]
        exact hlt
    have hfree : t.buckets[t.now.plus ms]? = none := by
      cases hb : t.buckets[t.now.plus ms]? with
      | none => rfl
      | some b =>
        have := hbefore _ (Std.TreeMap.mem_toList_iff_getElem?_eq_some.2 hb)
        exact absurd this (UInt64.lt_irrefl _)
    refine toList_eq_of_sorted (List.pairwise_append.2 ⟨sorted_toList _, by simp, ?_⟩) ?_
    · intro a ha b hb
      rw [List.mem_singleton.1 hb]
      exact hbefore a ha
    · intro k v
      simp only [toList, advance, updateNow, List.mem_append, List.mem_singleton, Prod.mk.injEq,
        Std.TreeMap.mem_toList_iff_getElem?_eq_some, Std.TreeMap.getElem?_alter,
        Std.LawfulEqCmp.compare_eq_iff_eq]
      by_cases hk : t.now.plus ms = k
      · subst hk
        simp [hfree, eq_comm]
      · simp [hk, Ne.symm hk]

theorem AtCursor.advance (h : t.AtCursor) (ms : Time) : (t.advance ms).AtCursor := by
  obtain ⟨earlier, bucket, h⟩ := h
  rcases toList_advance h ms with ⟨hnow, hl⟩ | hl
  · exact ⟨earlier, bucket, by rw [hl, h, hnow]⟩
  · exact ⟨_, _, hl⟩

theorem primitives_advance (h : t.AtCursor) (ms : Time) :
    (t.advance ms).primitives = t.primitives := by
  obtain ⟨earlier, bucket, h⟩ := h
  rcases toList_advance h ms with ⟨-, hl⟩ | hl
  · rw [primitives, hl, primitives]
  · rw [primitives_of_toList hl, primitives]
    simp

/-! ## The open path -/

/-- The open path is `p`, and stands in the last bucket between `front` and `back`. -/
def Open (t : Timeline) (front : List Primitive) (p : Path) (back : List Primitive) : Prop :=
  ∃ earlier bucket before, t.toList = earlier ++ [(t.now, bucket)] ∧
    bucket.toList = before ++ .path p :: back ∧ t.openPath = some ⟨t.now, before.length⟩ ∧
    front = (earlier.flatMap fun e => e.2.toList) ++ before

theorem modify_middle {α : Type} (f : α → α) (front : List α) (a : α) (back : List α) :
    (front ++ a :: back).modify front.length f = front ++ f a :: back := by
  rw [List.modify_eq_take_cons_drop (by simp)]
  simp

/-- A change of an open path in the last bucket changes this one place. -/
theorem toList_modifyOpen? {earlier : List (Time × Array Primitive)} {bucket : Array Primitive}
    {index : Nat} (h : t.toList = earlier ++ [(t.now, bucket)])
    (hplace : t.openPath = some ⟨t.now, index⟩) (hpath : t.openPath?.isSome = true)
    (f : Path → Path) :
    ∃ t', t.modifyOpen? f = some t' ∧ t'.now = t.now ∧ t'.openPath = t.openPath ∧
      t'.toList = earlier ++ [(t.now, bucket.modify index (Primitive.mapPath f))] := by
  refine ⟨{ t with buckets := t.buckets.modify t.now (·.modify index (Primitive.mapPath f)) },
    by simp [modifyOpen?, hplace, hpath], rfl, rfl, ?_⟩
  refine toList_replace_last h ?_ ?_
  · simp [getElem?_last h]
  · intro k hk
    simp [Std.TreeMap.getElem?_modify, Ne.symm hk]

namespace Open

variable {front back : List Primitive} {p : Path}

theorem atCursor (h : t.Open front p back) : t.AtCursor := by
  obtain ⟨earlier, bucket, -, hl, -⟩ := h
  exact ⟨earlier, bucket, hl⟩

theorem primitives (h : t.Open front p back) : t.primitives = front ++ .path p :: back := by
  obtain ⟨earlier, bucket, before, hl, hb, -, rfl⟩ := h
  rw [primitives_of_toList hl, hb, List.append_assoc]

theorem openPath?_eq (h : t.Open front p back) : t.openPath? = some p := by
  obtain ⟨earlier, bucket, before, hl, hb, ho, -⟩ := h
  have hget : bucket[before.length]? = some (.path p) := by
    rw [← Array.getElem?_toList, hb]
    simp
  rw [openPath?, ho]
  simp only [bucketAt_now hl, hget]
  rfl

theorem modifyOpen? (h : t.Open front p back) (f : Path → Path) :
    ∃ t', t.modifyOpen? f = some t' ∧ t'.Open front (f p) back := by
  have hpath := h.openPath?_eq
  obtain ⟨earlier, bucket, before, hl, hb, ho, rfl⟩ := h
  obtain ⟨t', ht, hnow, ho', hl'⟩ := toList_modifyOpen? hl ho (by rw [hpath]; rfl) f
  refine ⟨t', ht, earlier, bucket.modify before.length (Primitive.mapPath f), before, ?_, ?_, ?_, rfl⟩
  · rw [hl', hnow]
  · rw [Array.toList_modify, hb, modify_middle]
    rfl
  · rw [ho', ho, hnow]

end Open

theorem modifyOpen?_of_closed (h : t.openPath = none) (f : Path → Path) :
    t.modifyOpen? f = none := by
  rw [modifyOpen?, h]

theorem AtCursor.open_startPath (h : t.AtCursor) (p : Path) :
    (t.startPath p).Open t.primitives p [] := by
  obtain ⟨earlier, bucket, h⟩ := h
  refine ⟨earlier, bucket.push (.path p), bucket.toList,
    toList_updateNow h (·.push (.path p)), by simp, ?_, primitives_of_toList h⟩
  rw [startPath, bucketAt_now h]
  rfl

end Timeline
end TurtleGraphics
