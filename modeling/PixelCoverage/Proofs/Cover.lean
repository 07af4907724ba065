import PixelCoverage.CoverageMap.Query
import PixelCoverage.Proofs.Area
import PixelCoverage.Proofs.Bands
import PixelCoverage.Proofs.History
import PixelCoverage.Proofs.Work

/-!
# A work list is an exact cover

The work list of a map puts the bands of a region outside the bounds before the work
inside. What the two halves are is known by now, and they cannot meet, since one lies
outside the bounds and the other inside. So the list as a whole is one of rectangles that
do not meet, and from this come both the exactness of the cover and the sum of the areas.
-/

namespace PixelCoverage.CoverageMap

variable {m : CoverageMap} {roi : Rect} {p : Pixel} {mode : Mode}

/-! ## The region that is looked at -/

theorem mem_narrowed : p ∈ m.narrowed roi ↔ p ∈ roi ∧ ∀ r ∈ m.restriction, p ∈ r := by
  unfold narrowed
  cases m.restriction with
  | none => simp
  | some r => simp

theorem mem_inside : p ∈ m.inside roi ↔ p ∈ m.narrowed roi ∧ p ∈ m.bounds := Rect.mem_inter

theorem narrowed_of_eq_none (h : m.restriction = none) (roi : Rect) : m.narrowed roi = roi := by
  rw [narrowed, h]

/-- The restriction only ever takes away. -/
theorem narrowed_subset (m : CoverageMap) (roi : Rect) : m.narrowed roi ⊆ roi :=
  Rect.subset_iff.mpr fun _ hp => (mem_narrowed.mp hp).1

/-! ## The two halves of the list -/

/-- Bands outside the bounds, then work inside. -/
structure Listed (m : CoverageMap) (mode : Mode) (roi : Rect) (w inside : WorkList) : Prop where
  rects : w.rects = (m.narrowed roi).outside m.bounds ++ inside.rects
  flag : w.reservedElsewhere = inside.reservedElsewhere
  worked : m.grid.Worked mode m.config.decomposeBorders (m.inside roi) inside

/-- The bands come first, then the work inside the bounds. -/
theorem workList_of_workInside {inside : WorkList} (hm : m.grid.Sound)
    (hi : m.grid.workInside mode m.config.decomposeBorders (m.inside roi) = .ok inside) :
    m.workList mode roi =
      .ok ⟨(m.narrowed roi).outside m.bounds ++ inside.rects, inside.reservedElsewhere⟩ := by
  by_cases he : (m.narrowed roi).IsEmpty
  · have hno := Rect.isEmpty_iff_forall_not_mem.mp he
    have hin : (m.inside roi).IsEmpty :=
      Rect.isEmpty_iff_forall_not_mem.mpr fun p hp => hno p (mem_inside.mp hp).1
    rw [Grid.workInside, if_pos hin] at hi
    cases hi
    rw [workList, if_pos he, Rect.outside_of_isEmpty he]
    rfl
  · have hi' : m.grid.workInside mode m.config.decomposeBorders
        (m.narrowed roi ∩ m.grid.bounds) = .ok inside := hi
    simp only [workList, he, if_false, view_of_sound hm, Grid.workList, hi', bind, Except.bind,
      pure, Except.pure]
    rfl

theorem workList_listed (hm : m.grid.Sound) (mode : Mode) (roi : Rect) :
    ∃ w inside, m.workList mode roi = .ok w ∧ m.Listed mode roi w inside := by
  obtain ⟨inside, hi, hw⟩ := Grid.workInside_worked mode m.config.decomposeBorders
    (m.narrowed roi) hm.1 hm.2
  exact ⟨_, inside, workList_of_workInside hm hi, rfl, rfl, hw⟩

/-- A grid without its cells lists no work, and tells of nobody. -/
theorem sized_of_workList {w : WorkList} (h : m.workList mode roi = .ok w) :
    m.grid.Sized ∨ w = {} := by
  by_cases hs : m.grid.Sized
  · exact Or.inl hs
  · by_cases he : (m.narrowed roi).IsEmpty
    · simp only [workList, he, if_true, pure, Except.pure] at h
      cases h
      exact Or.inr rfl
    · have hview : m.view = .error (.cellCount m.grid.cells.size m.grid.bounds.area) := if_neg hs
      simp only [workList, he, if_false, hview, bind, Except.bind] at h
      exact absurd h (by simp)

/-! ## The cover -/

/-- What a work list is, as a cover of the work in a region. -/
structure Cover (m : CoverageMap) (mode : Mode) (roi : Rect) (w : WorkList) : Prop where
  short : w.rects.length ≤ 9
  nonempty : ∀ r ∈ w.rects, ¬ r.IsEmpty
  within : ∀ r ∈ w.rects, r ⊆ m.narrowed roi
  /-- No rectangle reaches across the edge of the bounds. -/
  unmixed : ∀ r ∈ w.rects, r ⊆ m.bounds ∨ ¬ r.Meets m.bounds
  apart : w.rects.Pairwise fun r s => ¬ r.Meets s
  /-- What was never rendered and what needs work is listed, and only once. -/
  exactly : ∀ p ∈ m.narrowed roi, p ∉ m.bounds ∨ m.grid.Needs mode p →
    w.rects.countP (p ∈ ·) = 1
  /-- The area is the number of the pixels listed. -/
  area : ∃ n : Nat, w.area = .ok n ∧ {p : Pixel | ∃ r ∈ w.rects, p ∈ r}.encard = n

variable {w inside : WorkList}

/-- The first half of the list. -/
theorem mem_outside_narrowed (hb : m.bounds.Normal) {r : Rect}
    (hr : r ∈ (m.narrowed roi).outside m.bounds) (hp : p ∈ r) :
    p ∈ m.narrowed roi ∧ p ∉ m.bounds :=
  (Rect.mem_outside_iff hb).mp ⟨r, hr, hp⟩

theorem Listed.nonempty (h : m.Listed mode roi w inside) : ∀ r ∈ w.rects, ¬ r.IsEmpty := by
  rw [h.rects, List.forall_mem_append]
  exact ⟨fun r hr => Rect.not_isEmpty_of_mem_outside hr, h.worked.nonempty⟩

theorem Listed.within (h : m.Listed mode roi w inside) (hb : m.bounds.Normal) :
    ∀ r ∈ w.rects, r ⊆ m.narrowed roi := by
  rw [h.rects, List.forall_mem_append]
  refine ⟨?_, ?_⟩
  · intro r hr
    rw [Rect.subset_iff]
    intro p hp
    exact (mem_outside_narrowed hb hr hp).1
  · intro r hr
    rw [Rect.subset_iff]
    intro p hp
    exact (mem_inside.mp (Rect.mem_of_subset (h.worked.within r hr) hp)).1

theorem Listed.inside_subset (h : m.Listed mode roi w inside) :
    ∀ r ∈ inside.rects, r ⊆ m.bounds := fun r hr =>
  Rect.subset_trans (h.worked.within r hr) (Rect.inter_subset_right _ _)

theorem Listed.unmixed (h : m.Listed mode roi w inside) (hb : m.bounds.Normal) :
    ∀ r ∈ w.rects, r ⊆ m.bounds ∨ ¬ r.Meets m.bounds := by
  rw [h.rects, List.forall_mem_append]
  exact ⟨fun r hr => Or.inr (Rect.not_meets_of_mem_outside hb hr),
    fun r hr => Or.inl (h.inside_subset r hr)⟩

theorem Listed.apart (h : m.Listed mode roi w inside) (hb : m.bounds.Normal) :
    w.rects.Pairwise fun r s => ¬ r.Meets s := by
  rw [h.rects]
  refine List.pairwise_append.mpr ⟨Rect.outside_pairwise hb, h.worked.apart, ?_⟩
  intro r hr s hs
  rw [Rect.not_meets_iff]
  intro p hp hq
  exact (mem_outside_narrowed hb hr hp).2 (Rect.mem_of_subset (h.inside_subset s hs) hq)

theorem Listed.covers (h : m.Listed mode roi w inside) (hb : m.bounds.Normal)
    (hp : p ∈ m.narrowed roi) (hn : p ∉ m.bounds ∨ m.grid.Needs mode p) :
    ∃ r ∈ w.rects, p ∈ r := by
  rw [h.rects]
  rcases Classical.em (p ∈ m.bounds) with hin | hout
  · have hneeds := hn.resolve_left (fun hout => hout hin)
    obtain ⟨r, hr, hpr⟩ := h.worked.covers p (mem_inside.mpr ⟨hp, hin⟩) hneeds
    exact ⟨r, List.mem_append_right _ hr, hpr⟩
  · obtain ⟨r, hr, hpr⟩ := (Rect.mem_outside_iff hb).mpr ⟨hp, hout⟩
    exact ⟨r, List.mem_append_left _ hr, hpr⟩

/-- All the rectangles lie in one region, and with them the sum of their areas. -/
theorem Listed.sum_area_le (h : m.Listed mode roi w inside) (hb : m.bounds.Normal)
    (hr : roi.InRange) : (w.rects.map Rect.area).sum ≤ maxCount := by
  by_cases he : (m.narrowed roi).IsEmpty
  · rw [Rect.eq_nil_of_isEmpty h.nonempty (h.within hb) he]
    exact Nat.zero_le _
  · have hw := Rect.within_of_subset (narrowed_subset m roi) he
    calc (w.rects.map Rect.area).sum
        ≤ (m.narrowed roi).area := Rect.sum_area_le h.nonempty (h.apart hb) (h.within hb)
      _ ≤ roi.area := Rect.area_le_of_within hw
      _ ≤ maxCount := Rect.area_le_maxCount hr

theorem Listed.cover (h : m.Listed mode roi w inside) (hb : m.bounds.Normal)
    (hr : roi.InRange) : m.Cover mode roi w where
  short := by
    rw [h.rects, List.length_append]
    exact Nat.add_le_add (Rect.length_outside_le _ _) h.worked.short
  nonempty := h.nonempty
  within := h.within hb
  unmixed := h.unmixed hb
  apart := h.apart hb
  exactly p hp hn := by
    rw [Rect.countP_mem_of_pairwise (h.apart hb), if_pos (h.covers hb hp hn)]
  area := by
    refine ⟨_, WorkList.area_of_sum_le (h.sum_area_le hb hr), ?_⟩
    exact Rect.encard_pixelsOf (fun r hr' => Rect.normal_of_not_isEmpty (h.nonempty r hr'))
      (h.apart hb)

/-- **A work list is an exact cover of the work in a region.** -/
theorem workList_exact (hm : m.Reachable) (hb : m.bounds.Normal) (hr : roi.InRange)
    (mode : Mode) : ∃ w, m.workList mode roi = .ok w ∧ m.Cover mode roi w := by
  obtain ⟨w, inside, hw, hl⟩ := workList_listed hm.sound mode roi
  exact ⟨w, hw, hl.cover hb hr⟩

theorem workList_exact_mixed :
    mixed.Reachable ∧ mixed.bounds.Normal ∧ Rect.InRange ⟨-1, 1, 6, 9⟩ ∧
      ∃ w, mixed.workList .trimap ⟨-1, 1, 6, 9⟩ = .ok w ∧ w.rects.length = 7 ∧
        w.area = .ok 53 ∧ mixed.Cover .trimap ⟨-1, 1, 6, 9⟩ w := by
  have hb : mixed.bounds.Normal := by decide
  have hr : Rect.InRange ⟨-1, 1, 6, 9⟩ := by decide
  obtain ⟨w, hw, hc⟩ := workList_exact mixed_reachable hb hr .trimap
  have he : mixed.workList .trimap ⟨-1, 1, 6, 9⟩ = .ok
      ⟨[⟨-1, 1, 0, 4⟩, ⟨4, 1, 6, 4⟩, ⟨-1, 4, 6, 9⟩, ⟨0, 3, 4, 4⟩, ⟨0, 1, 1, 3⟩, ⟨3, 1, 4, 3⟩,
        ⟨1, 2, 2, 3⟩], true⟩ := by cbv
  rw [he] at hw
  cases hw
  exact ⟨mixed_reachable, hb, hr, _, he, rfl, rfl, hc⟩

end PixelCoverage.CoverageMap
