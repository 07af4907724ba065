import PixelCoverage.Proofs.Strips
import PixelCoverage.WorkList

/-!
# The work inside the bounds

Work inside the bounds is the uncovered box, as it is or cut into its strips and the
residual. Either way it is a list of rectangles that do not meet and hold every pixel that
needs work. What the list leaves out is covered, or in the hands of others:

* a reserved pixel outside the box is told of by the box;
* one inside the box but in no strip lies in the interior, and if the residual leaves it
  out as well, the peel tells of it.
-/

namespace PixelCoverage

namespace Decomposition

variable {d : Decomposition} {p : Pixel} {r : Rect}

theorem exists_mem_work_iff :
    (∃ r ∈ d.work, p ∈ r) ↔ (∃ r ∈ d.strips, p ∈ r) ∨ p ∈ d.residual := by
  rw [work, Rect.exists_mem_filter_iff]
  simp only [List.mem_append, List.mem_singleton, or_and_right, exists_or, exists_eq_left]

theorem mem_work_iff : r ∈ d.work ↔ (r ∈ d.strips ∨ r = d.residual) ∧ ¬ r.IsEmpty := by
  rw [work, List.mem_filter, List.mem_append, List.mem_singleton, decide_eq_true_eq]

theorem length_work_le (d : Decomposition) : d.work.length ≤ 5 := List.length_filter_le _ _

/-- The residual meets no strip, since it lies in the interior. -/
theorem Tiles.work_pairwise (h : d.Tiles) (hn : ∀ r ∈ d.parts, r.Normal)
    (hr : d.residual ⊆ d.interior) : d.work.Pairwise fun r s => ¬ r.Meets s := by
  obtain ⟨hs, -, hi⟩ := List.pairwise_append.mp (h.pairwise hn)
  refine List.Pairwise.filter _ (List.pairwise_append.mpr ⟨hs, ?_, ?_⟩)
  · exact List.pairwise_singleton _ _
  · intro r hr' s hs'
    rw [List.mem_singleton.mp hs', Rect.not_meets_iff]
    intro p hp hq
    have hdis := Rect.not_meets_iff.mp (hi r hr' d.interior List.mem_cons_self)
    exact hdis p hp (Rect.mem_of_subset hr hq)

end Decomposition

namespace Grid

variable {g : Grid} {m : Mode} {region : Rect}

/-- What the work of a region inside the bounds is. -/
structure Worked (g : Grid) (m : Mode) (on : Bool) (region : Rect) (w : WorkList) : Prop where
  nonempty : ∀ r ∈ w.rects, ¬ r.IsEmpty
  within : ∀ r ∈ w.rects, r ⊆ region
  apart : w.rects.Pairwise fun r s => ¬ r.Meets s
  short : w.rects.length ≤ 5
  /-- A box that is not cut up is one rectangle. -/
  single : on = false → w.rects.length ≤ 1
  covers : ∀ p ∈ region, g.Needs m p → ∃ r ∈ w.rects, p ∈ r
  /-- Without work there is nothing to list. -/
  idle : (∀ p ∈ region, ¬ g.Needs m p) → w.rects = []
  /-- A reserved pixel that the list leaves out is told of. -/
  tells : ∀ p ∈ region, (∀ r ∈ w.rects, p ∉ r) → g.get? p = some .reserved →
    w.reservedElsewhere = true
  /-- Nothing is told of but a reserved pixel that is left to its holder. -/
  told : w.reservedElsewhere = true →
    ∃ p ∈ region, g.get? p = some .reserved ∧ ¬ m.Needs .reserved
  /-- A box that is not cut up tells of nothing that it holds itself. -/
  told_box : on = false → w.reservedElsewhere = true →
    ∃ p ∈ region, (∀ r ∈ w.rects, p ∉ r) ∧ g.get? p = some .reserved

/-- Nothing is listed, and what is reserved is told of. -/
theorem worked_nil {on f : Bool} (hn : ∀ p ∈ region, ¬ g.Needs m p)
    (hf : f = true ↔ ∃ p ∈ region, g.get? p = some .reserved) :
    g.Worked m on region ⟨[], f⟩ where
  nonempty _ hr := absurd hr List.not_mem_nil
  within _ hr := absurd hr List.not_mem_nil
  apart := List.Pairwise.nil
  short := Nat.zero_le 5
  single _ := Nat.zero_le 1
  covers p hp h := absurd h (hn p hp)
  idle _ := rfl
  tells p hp _ hres := hf.mpr ⟨p, hp, hres⟩
  told h := by
    obtain ⟨p, hp, hres⟩ := hf.mp h
    exact ⟨p, hp, hres, fun hm => hn p hp ⟨_, hres, hm⟩⟩
  told_box _ h := by
    obtain ⟨p, hp, hres⟩ := hf.mp h
    exact ⟨p, hp, fun _ hr => absurd hr List.not_mem_nil, hres⟩

/-- The uncovered box leaves out no work, so no reserved pixel that counts as work. -/
theorem Boxed.told {t : Trimmed} (h : g.Boxed m region t) (hf : t.reserved = true) :
    ∃ p ∈ region, p ∉ t.rect ∧ g.get? p = some .reserved ∧ ¬ m.Needs .reserved := by
  obtain ⟨p, hp, hout, hres⟩ := h.reserved.mp hf
  exact ⟨p, hp, hout, hres, fun hn => hout (h.isBox.holds p ⟨hp, _, hres, hn⟩)⟩

/-- The box as it is. -/
theorem Boxed.worked_box {t : Trimmed} {on : Bool} (h : g.Boxed m region t)
    (he : ¬ t.rect.IsEmpty) : g.Worked m on region ⟨[t.rect], t.reserved⟩ where
  nonempty := List.forall_mem_singleton.mpr he
  within := List.forall_mem_singleton.mpr h.within.subset
  apart := List.pairwise_singleton _ _
  short := Nat.le_add_left 1 4
  single _ := Nat.le_refl 1
  covers p hp hn := ⟨t.rect, List.mem_singleton_self _, h.isBox.holds p ⟨hp, hn⟩⟩
  idle hn := absurd (h.isBox.isEmpty_iff.mpr fun p hp => hn p hp.1 hp.2) he
  tells p hp hout hres := h.reserved.mpr ⟨p, hp, hout _ (List.mem_singleton_self _), hres⟩
  told hf := by
    obtain ⟨p, hp, _, hres⟩ := h.told hf
    exact ⟨p, hp, hres⟩
  told_box _ hf := by
    obtain ⟨p, hp, hout, hres, _⟩ := h.told hf
    exact ⟨p, hp, List.forall_mem_singleton.mpr hout, hres⟩

/-- A pixel of the box is in the work, or in what the residual leaves out. -/
theorem Peeled.mem_work_or {bbox : Rect} {d : Decomposition} {p : Pixel} (h : g.Peeled m bbox d)
    (hp : p ∈ bbox) : (∃ r ∈ d.work, p ∈ r) ∨ p ∈ d.interior ∧ p ∉ d.residual := by
  rw [Decomposition.exists_mem_work_iff]
  obtain ⟨r, hr, hpr⟩ := (h.tiles.mem_bbox_iff h.normal).mp (h.bbox_eq ▸ hp)
  rcases List.mem_append.mp hr with hs | hi
  · exact Or.inl (Or.inl ⟨r, hs, hpr⟩)
  · rw [List.mem_singleton.mp hi] at hpr
    rcases Classical.em (p ∈ d.residual) with hres | hres
    · exact Or.inl (Or.inr hres)
    · exact Or.inr ⟨hpr, hres⟩

/-- No strip sticks out of the box, and neither does the residual. -/
theorem Peeled.subset_of_mem_work {bbox r : Rect} {d : Decomposition} (h : g.Peeled m bbox d)
    (hr : r ∈ d.work) : r ⊆ bbox := by
  rw [Rect.subset_iff]
  intro p hp
  rcases (Decomposition.mem_work_iff.mp hr).1 with hs | hres
  · rw [← h.bbox_eq]
    exact (h.tiles.mem_bbox_iff h.normal).mpr ⟨r, List.mem_append_left _ hs, hp⟩
  · exact h.within.mem (h.residual_within.mem (hres ▸ hp))

/-- The strips of the box and its residual. -/
theorem Boxed.worked_strips {t : Trimmed} {d : Decomposition} (h : g.Boxed m region t)
    (he : ¬ t.rect.IsEmpty) (hd : g.Peeled m t.rect d) :
    g.Worked m true region ⟨d.work, t.reserved || d.reservedElsewhere⟩ where
  nonempty r hr := (Decomposition.mem_work_iff.mp hr).2
  within r hr := Rect.subset_trans (hd.subset_of_mem_work hr) h.within.subset
  apart := hd.tiles.work_pairwise hd.normal hd.residual_within.subset
  short := Decomposition.length_work_le d
  single h := absurd h (by simp)
  covers p hp hn := by
    rcases hd.mem_work_or (h.isBox.holds p ⟨hp, hn⟩) with hw | ⟨hi, hout⟩
    · exact hw
    · exact absurd (hd.residual.holds p ⟨hi, hn⟩) hout
  idle hn := absurd (h.isBox.isEmpty_iff.mpr fun p hp => hn p hp.1 hp.2) he
  tells p hp hout hres := by
    rw [Bool.or_eq_true]
    rcases Classical.em (p ∈ t.rect) with hin | hin
    · rcases hd.mem_work_or hin with ⟨r, hr, hpr⟩ | ⟨hi, hnot⟩
      · exact absurd hpr (hout r hr)
      · exact Or.inr (hd.tells p hi hnot hres)
    · exact Or.inl (h.reserved.mpr ⟨p, hp, hin, hres⟩)
  told hf := by
    rcases Bool.or_eq_true _ _ ▸ hf with hf | hf
    · obtain ⟨p, hp, _, hres⟩ := h.told hf
      exact ⟨p, hp, hres⟩
    · obtain ⟨p, hp, hres⟩ := hd.told hf
      exact ⟨p, h.within.mem hp, hres⟩
  told_box h := absurd h (by simp)

/-! ## How the work is found -/

section Found

variable {on : Bool} {t : Trimmed} {d : Decomposition}

/-- An empty box lists nothing. -/
theorem workInside_of_isEmpty (he : ¬ region.IsEmpty) (et : g.uncoveredBox m region = .ok t)
    (hbox : t.rect.IsEmpty) : g.workInside m on region = .ok ⟨[], t.reserved⟩ := by
  simp only [workInside, he, if_false, et, hbox, if_true, bind, Except.bind, pure, Except.pure]

/-- Without the strips, the box is listed as it is. -/
theorem workInside_of_box (he : ¬ region.IsEmpty) (et : g.uncoveredBox m region = .ok t)
    (hbox : ¬ t.rect.IsEmpty) : g.workInside m false region = .ok ⟨[t.rect], t.reserved⟩ := by
  simp only [workInside, he, if_false, et, hbox, bind, Except.bind, pure, Except.pure,
    Bool.false_eq_true]

/-- With them, they are listed and then the residual. -/
theorem workInside_of_strips (he : ¬ region.IsEmpty) (et : g.uncoveredBox m region = .ok t)
    (hbox : ¬ t.rect.IsEmpty) (ed : g.peel m t.rect = .ok d) :
    g.workInside m true region = .ok ⟨d.work, t.reserved || d.reservedElsewhere⟩ := by
  simp only [workInside, he, if_false, et, hbox, if_true, ed, bind, Except.bind, pure,
    Except.pure]

end Found

/-- **The work inside the bounds.** It is always found. -/
theorem workInside_worked (m : Mode) (on : Bool) (roi : Rect) (hg : g.Sized)
    (hb : g.bounds.InRange) : ∃ w, g.workInside m on (roi ∩ g.bounds) = .ok w ∧
      g.Worked m on (roi ∩ g.bounds) w := by
  by_cases he : (roi ∩ g.bounds).IsEmpty
  · have hno := Rect.isEmpty_iff_forall_not_mem.mp he
    refine ⟨⟨[], false⟩, if_pos he, worked_nil (fun p hp => absurd hp (hno p)) ?_⟩
    exact iff_of_false Bool.false_ne_true fun ⟨p, hp, _⟩ => hno p hp
  have hr := Rect.within_of_subset (Rect.inter_subset_right roi g.bounds) he
  obtain ⟨t, et, ht⟩ := uncoveredBox_boxed m hg hb hr
  by_cases hbox : t.rect.IsEmpty
  · refine ⟨⟨[], t.reserved⟩, workInside_of_isEmpty he et hbox, worked_nil ?_ ?_⟩
    · intro p hp hn
      exact ht.isBox.isEmpty_iff.mp hbox p ⟨hp, hn⟩
    · simp only [ht.reserved, Rect.isEmpty_iff_forall_not_mem.mp hbox, not_false_iff, true_and]
  cases on with
  | false => exact ⟨_, workInside_of_box he et hbox, ht.worked_box hbox⟩
  | true =>
    obtain ⟨d, ed, hd⟩ := peel_peeled m hg hb (ht.within.trans hr)
    exact ⟨_, workInside_of_strips he et hbox ed, ht.worked_strips hbox hd⟩

/-- What succeeds has succeeded in both of its parts. -/
theorem exists_of_bind_ok {ε α β : Type} {u : Except ε α} {k : α → Except ε β} {b : β}
    (h : (u >>= k) = .ok b) : ∃ a, u = .ok a ∧ k a = .ok b := by
  cases u with
  | ok a => exact ⟨a, rfl, h⟩
  | error f => exact absurd h (by simp [bind, Except.bind])

/-- Where something is listed there is a box, and what is listed is made of it. -/
theorem rects_of_workInside {on : Bool} {w : WorkList} (h : g.workInside m on region = .ok w)
    (hw : w.rects ≠ []) :
    ¬ region.IsEmpty ∧ ∃ t, g.uncoveredBox m region = .ok t ∧ ¬ t.rect.IsEmpty ∧
      if on then ∃ d, g.peel m t.rect = .ok d ∧ w.rects = d.work else w.rects = [t.rect] := by
  unfold workInside at h
  split at h
  · cases h
    exact absurd rfl hw
  rename_i he
  obtain ⟨t, et, h⟩ := exists_of_bind_ok h
  split at h
  · cases h
    exact absurd rfl hw
  rename_i hbox
  refine ⟨he, t, et, hbox, ?_⟩
  cases on with
  | false =>
    cases h
    rfl
  | true =>
    obtain ⟨d, ed, h⟩ := exists_of_bind_ok h
    cases h
    exact ⟨d, ed, rfl⟩

end Grid

end PixelCoverage
