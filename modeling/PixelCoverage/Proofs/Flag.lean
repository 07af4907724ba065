import PixelCoverage.Proofs.Cover
import PixelCoverage.Proofs.Decompose

/-!
# What the flag tells

With an answer goes a flag that tells of pixels reserved by others. In trimap mode they are
no work and may be left out of the answer, and then the flag must be set: an empty list
without the flag is taken to mean that the region is finished. In simple mode a reserved
pixel is work like any other, so there is nothing to tell of.

The passes report a reserved pixel only when they cut it off. That no such pixel slips
through between two passes is part of what the uncovered box and the peel are; this file
puts the halves together and draws the conclusion for the scheduler.
-/

namespace PixelCoverage.CoverageMap

variable {m : CoverageMap} {roi : Rect} {p : Pixel} {mode : Mode} {w inside : WorkList}

/-- Some reserved pixel of the region is not in the rectangle. -/
def ReservedOutside (m : CoverageMap) (roi r : Rect) : Prop :=
  ∃ p ∈ m.inside roi, p ∉ r ∧ m.grid.get? p = some .reserved

/-- The box of a map and its flag. -/
theorem uncoveredBox_found (hm : m.grid.Sound) (mode : Mode) (roi : Rect) :
    ∃ t, m.uncoveredBox mode roi = .ok t ∧
      t.rect.IsBox (fun p => p ∈ m.inside roi ∧ m.grid.Needs mode p) ∧
      (t.reserved = true ↔ m.ReservedOutside roi t.rect) := by
  by_cases he : (m.inside roi).IsEmpty
  · have hno := Rect.isEmpty_iff_forall_not_mem.mp he
    refine ⟨⟨.zero, false⟩, if_pos he, ?_, ?_⟩
    · exact Rect.isBox_of_isEmpty (by decide) fun p hp => hno p hp.1
    · exact iff_of_false Bool.false_ne_true fun ⟨p, hp, _⟩ => hno p hp
  · obtain ⟨t, et, ht⟩ := Grid.uncoveredBox_boxed mode hm.1 hm.2 (Grid.within_bounds he)
    exact ⟨t, (uncoveredBox_of_not_isEmpty hm he).trans et, ht.isBox, ht.reserved⟩

/-! ## The flag of a work list -/

/-- A pixel inside the bounds is in the whole list if it is in the half about them. -/
theorem Listed.not_mem_iff (h : m.Listed mode roi w inside) (hb : m.bounds.Normal)
    (hp : p ∈ m.bounds) : (∀ r ∈ w.rects, p ∉ r) ↔ ∀ r ∈ inside.rects, p ∉ r := by
  rw [h.rects, List.forall_mem_append]
  refine and_iff_right fun r hr hpr => ?_
  exact (mem_outside_narrowed hb hr hpr).2 hp

/-- Without the strips there is no more than one rectangle inside the bounds. -/
theorem Listed.countP_subset_le (h : m.Listed mode roi w inside) (hb : m.bounds.Normal)
    (hoff : m.config.decomposeBorders = false) : w.rects.countP (· ⊆ m.bounds) ≤ 1 := by
  have hout : ((m.narrowed roi).outside m.bounds).countP (· ⊆ m.bounds) = 0 := by
    rw [List.countP_eq_zero]
    intro r hr
    rw [decide_eq_true_eq]
    exact Rect.not_subset_of_mem_outside hb hr
  rw [h.rects, List.countP_append, hout, Nat.zero_add]
  exact Nat.le_trans List.countP_le_length (h.worked.single hoff)

/-- A list is empty when all of the region lies in the bounds and nothing needs work. -/
theorem Listed.rects_eq_nil_iff (h : m.Listed mode roi w inside) (hb : m.bounds.Normal) :
    w.rects = [] ↔ ∀ p ∈ m.narrowed roi, p ∈ m.bounds ∧ ¬ m.grid.Needs mode p := by
  refine ⟨?_, ?_⟩
  · intro hnil p hp
    have hno : ¬ (p ∉ m.bounds ∨ m.grid.Needs mode p) := by
      intro hn
      obtain ⟨r, hr, _⟩ := h.covers hb hp hn
      rw [hnil] at hr
      exact absurd hr List.not_mem_nil
    exact ⟨Classical.not_not.mp fun hout => hno (Or.inl hout), fun hn => hno (Or.inr hn)⟩
  · intro hall
    have hbands : (m.narrowed roi).outside m.bounds = [] :=
      (Rect.outside_eq_nil_iff hb).mpr fun p hp => (hall p hp).1
    have hinside : inside.rects = [] :=
      h.worked.idle fun p hp => (hall p (mem_inside.mp hp).1).2
    rw [h.rects, hbands, hinside, List.append_nil]

/-- What needs no work in trimap mode is available or reserved. -/
theorem available_or_reserved (hm : m.grid.Sound) (hp : p ∈ m.bounds)
    (hn : ¬ m.grid.Needs .trimap p) :
    m.grid.get? p = some .available ∨ m.grid.get? p = some .reserved := by
  obtain ⟨s, hs⟩ := Grid.exists_get?_of_mem hm.1 hp
  cases s with
  | unrendered => exact absurd ⟨_, hs, rfl⟩ hn
  | reserved => exact Or.inr hs
  | available => exact Or.inl hs

theorem not_needs_of_get? {s : PixelState} (hs : m.grid.get? p = some s) (hn : ¬ mode.Needs s) :
    ¬ m.grid.Needs mode p := by
  intro h
  exact Grid.not_needs_and_blocks h ⟨s, hs, hn⟩

/-- A region is told of when some reserved pixel is in its list nowhere. -/
theorem Listed.flag_of_left_out (h : m.Listed mode roi w inside) (hb : m.bounds.Normal)
    (hp : p ∈ m.inside roi) (hout : ∀ r ∈ w.rects, p ∉ r)
    (hres : m.grid.get? p = some .reserved) : w.reservedElsewhere = true := by
  have hin := (mem_inside.mp hp).2
  rw [h.flag]
  exact h.worked.tells p hp ((h.not_mem_iff hb hin).mp hout) hres

/-- No rectangle outside the bounds holds a pixel inside. -/
theorem Listed.not_mem_of_subset_iff (h : m.Listed mode roi w inside) (hb : m.bounds.Normal)
    (hp : p ∈ m.bounds) :
    (∀ r ∈ w.rects, r ⊆ m.bounds → p ∉ r) ↔ ∀ r ∈ w.rects, p ∉ r := by
  refine ⟨fun hall r hr hpr => ?_, fun hall r hr _ => hall r hr⟩
  rcases h.unmixed hb r hr with hsub | hapart
  · exact hall r hr hsub hpr
  · exact Rect.not_meets_iff.mp hapart p hpr hp

theorem Listed.told (h : m.Listed mode roi w inside) (hf : w.reservedElsewhere = true) :
    ∃ p ∈ m.inside roi, m.grid.get? p = some .reserved ∧ ¬ mode.Needs .reserved :=
  h.worked.told (h.flag ▸ hf)

/-- What the flag of a work list in trimap mode tells, and what it tells apart. -/
structure Flagged (m : CoverageMap) (roi : Rect) (w : WorkList) : Prop where
  single : m.config.decomposeBorders = false → w.rects.countP (· ⊆ m.bounds) ≤ 1
  /-- Without the strips, the flag is exact. -/
  box : m.config.decomposeBorders = false → (w.reservedElsewhere = true ↔
    ∃ p ∈ m.inside roi, (∀ r ∈ w.rects, r ⊆ m.bounds → p ∉ r) ∧
      m.grid.get? p = some .reserved)
  /-- With them, it tells of every reserved pixel that is left out. -/
  tells : (∃ p ∈ m.inside roi, (∀ r ∈ w.rects, p ∉ r) ∧ m.grid.get? p = some .reserved) →
    w.reservedElsewhere = true
  quiet : (∀ p ∈ m.inside roi, m.grid.get? p ≠ some .reserved) → w.reservedElsewhere = false
  /-- Nothing listed and nothing told: the region is finished. -/
  finished : (w.rects = [] ∧ w.reservedElsewhere = false) ↔
    ∀ p ∈ m.narrowed roi, p ∈ m.bounds ∧ m.grid.get? p = some .available
  /-- Nothing listed, but told of others: they hold the rest. -/
  waiting : (w.rects = [] ∧ w.reservedElsewhere = true) ↔
    (∀ p ∈ m.narrowed roi, p ∈ m.bounds ∧
      (m.grid.get? p = some .available ∨ m.grid.get? p = some .reserved)) ∧
    ∃ p ∈ m.narrowed roi, m.grid.get? p = some .reserved

theorem Listed.flagged (h : m.Listed .trimap roi w inside) (hm : m.grid.Sound)
    (hb : m.bounds.Normal) : m.Flagged roi w where
  single := h.countP_subset_le hb
  box hoff := by
    refine ⟨?_, ?_⟩
    · intro hf
      obtain ⟨p, hp, hout, hres⟩ := h.worked.told_box hoff (h.flag ▸ hf)
      have hin := (mem_inside.mp hp).2
      have hall := (h.not_mem_iff hb hin).mpr hout
      exact ⟨p, hp, (h.not_mem_of_subset_iff hb hin).mpr hall, hres⟩
    · intro hex
      obtain ⟨p, hp, hout, hres⟩ := hex
      have hin := (mem_inside.mp hp).2
      exact h.flag_of_left_out hb hp ((h.not_mem_of_subset_iff hb hin).mp hout) hres
  tells := fun ⟨p, hp, hout, hres⟩ => h.flag_of_left_out hb hp hout hres
  quiet hq := by
    rw [Bool.eq_false_iff]
    intro hf
    obtain ⟨p, hp, hres, _⟩ := h.told hf
    exact hq p hp hres
  finished := by
    refine ⟨?_, fun hall => ⟨?_, ?_⟩⟩
    · intro hidle p hp
      obtain ⟨hnil, hf⟩ := hidle
      obtain ⟨hin, hn⟩ := (h.rects_eq_nil_iff hb).mp hnil p hp
      rcases available_or_reserved hm hin hn with hav | hres
      · exact ⟨hin, hav⟩
      · -- a reserved pixel is in the empty list nowhere
        have ht := h.flag_of_left_out hb (mem_inside.mpr ⟨hp, hin⟩) (by rw [hnil]; simp) hres
        rw [ht] at hf
        exact absurd hf (by simp)
    · rw [h.rects_eq_nil_iff hb]
      intro p hp
      exact ⟨(hall p hp).1, not_needs_of_get? (hall p hp).2 (by simp)⟩
    · rw [Bool.eq_false_iff]
      intro hf
      obtain ⟨p, hp, hres, _⟩ := h.told hf
      have hav := (hall p (mem_inside.mp hp).1).2
      rw [hres] at hav
      exact absurd hav (by simp)
  waiting := by
    refine ⟨?_, ?_⟩
    · intro hidle
      obtain ⟨hnil, hf⟩ := hidle
      obtain ⟨p, hp, hres, _⟩ := h.told hf
      refine ⟨?_, p, (mem_inside.mp hp).1, hres⟩
      intro q hq
      obtain ⟨hin, hn⟩ := (h.rects_eq_nil_iff hb).mp hnil q hq
      exact ⟨hin, available_or_reserved hm hin hn⟩
    · intro hwait
      obtain ⟨hall, p, hp, hres⟩ := hwait
      have hnil : w.rects = [] := by
        rw [h.rects_eq_nil_iff hb]
        intro q hq
        obtain ⟨hin, hav | hres⟩ := hall q hq
        · exact ⟨hin, not_needs_of_get? hav (by simp)⟩
        · exact ⟨hin, not_needs_of_get? hres (by simp)⟩
      have hin := mem_inside.mpr ⟨hp, (hall p hp).1⟩
      exact ⟨hnil, h.flag_of_left_out hb hin (by rw [hnil]; simp) hres⟩

/-- The flag of a list that has been asked for tells what it should. -/
theorem flagged_of_workList (hm : m.grid.Sound) (hb : m.bounds.Normal)
    (h : m.workList .trimap roi = .ok w) : m.Flagged roi w := by
  obtain ⟨w', inside, hw, hl⟩ := workList_listed hm .trimap roi
  rw [hw] at h
  cases h
  exact hl.flagged hm hb

/-- **The flag is right.** In trimap mode it tells of what is left out, and in simple mode
there is nothing to tell of. -/
theorem flag_exact (hm : m.Reachable) (hb : m.bounds.Normal) (roi : Rect) :
    (∃ t, m.uncoveredBox .trimap roi = .ok t ∧
      (t.reserved = true ↔ m.ReservedOutside roi t.rect)) ∧
    (∃ w, m.workList .trimap roi = .ok w ∧ m.Flagged roi w) ∧
    (∃ w, m.workList .simple roi = .ok w ∧ w.reservedElsewhere = false) ∧
    ∃ answer, m.decompose .simple roi = .ok answer ∧
      ∀ d, answer = some d → d.reservedElsewhere = false := by
  refine ⟨?_, ?_, ?_, ?_⟩
  · obtain ⟨t, et, _, ht⟩ := uncoveredBox_found hm.sound .trimap roi
    exact ⟨t, et, ht⟩
  · obtain ⟨w, inside, ew, hl⟩ := workList_listed hm.sound .trimap roi
    exact ⟨w, ew, hl.flagged hm.sound hb⟩
  · obtain ⟨w, inside, ew, hl⟩ := workList_listed hm.sound .simple roi
    refine ⟨w, ew, Bool.eq_false_iff.mpr fun hf => ?_⟩
    obtain ⟨_, _, _, hn⟩ := hl.told hf
    exact hn (by simp)
  · obtain ⟨answer, ea, _, hd⟩ := decompose_strips hm.sound .simple roi
    refine ⟨answer, ea, fun d h => Bool.eq_false_iff.mpr fun hf => ?_⟩
    exact (hd d h).2 hf (by simp)

theorem flag_exact_mixed :
    mixed.Reachable ∧ mixed.bounds.Normal ∧
      (∃ t, mixed.uncoveredBox .trimap ⟨1, 1, 3, 3⟩ = .ok t ∧ t.rect = ⟨1, 2, 2, 3⟩ ∧
        t.reserved = true ∧ mixed.ReservedOutside ⟨1, 1, 3, 3⟩ ⟨1, 2, 2, 3⟩) ∧
      ∃ w, mixed.workList .trimap ⟨1, 1, 3, 3⟩ = .ok w ∧ w = ⟨[⟨1, 2, 2, 3⟩], true⟩ ∧
        mixed.Flagged ⟨1, 1, 3, 3⟩ w := by
  have hb : mixed.bounds.Normal := by decide
  obtain ⟨⟨t, et, ht⟩, ⟨w, ew, hw⟩, _, _⟩ := flag_exact mixed_reachable hb ⟨1, 1, 3, 3⟩
  have he : mixed.uncoveredBox .trimap ⟨1, 1, 3, 3⟩ = .ok ⟨⟨1, 2, 2, 3⟩, true⟩ := by cbv
  have hl : mixed.workList .trimap ⟨1, 1, 3, 3⟩ = .ok ⟨[⟨1, 2, 2, 3⟩], true⟩ := by cbv
  rw [he] at et
  rw [hl] at ew
  cases et
  cases ew
  exact ⟨mixed_reachable, hb, ⟨_, he, rfl, rfl, ht.mp rfl⟩, _, hl, rfl, hw⟩

end PixelCoverage.CoverageMap
