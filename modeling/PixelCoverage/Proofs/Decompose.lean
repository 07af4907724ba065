import PixelCoverage.CoverageMap.Query
import PixelCoverage.Proofs.History
import PixelCoverage.Proofs.Work

/-!
# What a decomposition means

A map answers with the strips of the uncovered box of a region. A reachable map always
answers, and the answer can be said without the passes that find it: the box is the smallest
around the work, the interior the smallest around what blocks in it, the residual the
smallest around the work in the interior, and the parts tile the box.
-/

namespace PixelCoverage

namespace Grid

variable {g : Grid} {m : Mode} {region r : Rect}

/-- What is not empty of a part of the bounds has its edges between theirs. -/
theorem within_bounds (h : ¬ (r ∩ g.bounds).IsEmpty) : (r ∩ g.bounds).Within g.bounds :=
  Rect.within_of_subset (Rect.inter_subset_right _ _) h

/-- What the strips of a region are. A box of no pixels is empty. -/
structure Strips (g : Grid) (m : Mode) (region : Rect) (d : Decomposition) : Prop where
  /-- The box is the smallest around the work of the region. -/
  bbox : d.bbox.IsBox (fun p => p ∈ region ∧ g.Needs m p)
  /-- A pixel of the box lies in exactly one part, and no other pixel lies in any. -/
  parts : ∀ p, d.parts.countP (p ∈ ·) = if p ∈ d.bbox then 1 else 0
  /-- Strips are pure work. -/
  strips : ∀ r ∈ d.strips, ∀ p ∈ r, g.Needs m p
  /-- The interior is the smallest around what is no work, so the strips are the widest. -/
  interior : d.interior.IsBox (fun p => p ∈ d.bbox ∧ g.Blocks m p)
  /-- The residual is the smallest around the work of the interior. -/
  residual : d.residual.IsBox (fun p => p ∈ d.interior ∧ g.Needs m p)

theorem Peeled.strips {t : Trimmed} {d : Decomposition} (hg : g.Sized)
    (hr : region.Within g.bounds) (ht : g.Boxed m region t) (hd : g.Peeled m t.rect d)
    (f : Bool) : g.Strips m region { d with reservedElsewhere := f } where
  bbox := by
    show d.bbox.IsBox _
    rw [hd.bbox_eq]
    exact ht.isBox
  parts := hd.tiles.countP_mem hd.normal
  strips := hd.needs_of_mem_strips hg (ht.within.trans hr)
  interior := by
    show d.interior.IsBox (fun p => p ∈ d.bbox ∧ g.Blocks m p)
    rw [hd.bbox_eq]
    exact hd.interior
  residual := hd.residual

end Grid

/-! ## The answer of a map -/

namespace CoverageMap

variable {m : CoverageMap} {roi : Rect} {mode : Mode}

/-! ### What is asked of the grid -/

section Asked

variable {t : Trimmed} {d : Decomposition}

theorem uncoveredBox_of_not_isEmpty (hm : m.grid.Sound) (he : ¬ (m.inside roi).IsEmpty) :
    m.uncoveredBox mode roi = m.grid.uncoveredBox mode (m.inside roi) := by
  simp only [uncoveredBox, he, if_false, view_of_sound hm, bind, Except.bind]

/-- There are no strips of an empty box. -/
theorem decompose_of_isEmpty (hm : m.grid.Sound) (he : ¬ (m.inside roi).IsEmpty)
    (et : m.grid.uncoveredBox mode (m.inside roi) = .ok t) (hb : t.rect.IsEmpty) :
    m.decompose mode roi = .ok none := by
  simp only [decompose, he, if_false, view_of_sound hm, et, hb, if_true, bind, Except.bind, pure,
    Except.pure]

/-- The strips of the box also tell of what the box tells of. -/
theorem decompose_of_peel (hm : m.grid.Sound) (he : ¬ (m.inside roi).IsEmpty)
    (et : m.grid.uncoveredBox mode (m.inside roi) = .ok t) (hb : ¬ t.rect.IsEmpty)
    (ed : m.grid.peel mode t.rect = .ok d) :
    m.decompose mode roi =
      .ok (some { d with reservedElsewhere := d.reservedElsewhere || t.reserved }) := by
  simp only [decompose, he, if_false, view_of_sound hm, et, hb, ed, bind, Except.bind, pure,
    Except.pure]

end Asked

/-! ### What is answered -/

/-- The answer to `decompose`, with what its flag can tell of. -/
theorem decompose_answered (hm : m.grid.Sound) (mode : Mode) (roi : Rect) :
    ∃ answer, m.decompose mode roi = .ok answer ∧
      (answer = none ↔ ∀ p ∈ m.inside roi, ¬ m.grid.Needs mode p) ∧
      ∀ d, answer = some d → m.grid.Strips mode (m.inside roi) d ∧
        (d.reservedElsewhere = true →
          ∃ p ∈ m.inside roi, m.grid.get? p = some .reserved ∧ ¬ mode.Needs .reserved) := by
  by_cases he : (m.inside roi).IsEmpty
  · refine ⟨none, if_pos he, ?_, by simp⟩
    exact iff_of_true rfl fun p hp => absurd hp (Rect.isEmpty_iff_forall_not_mem.mp he p)
  have hr : (m.inside roi).Within m.grid.bounds := Grid.within_bounds he
  obtain ⟨t, et, ht⟩ := Grid.uncoveredBox_boxed mode hm.1 hm.2 hr
  have hnone := ht.isBox.isEmpty_iff
  by_cases hb : t.rect.IsEmpty
  · refine ⟨none, decompose_of_isEmpty hm he et hb, ?_, by simp⟩
    exact iff_of_true rfl fun p hp hn => hnone.mp hb p ⟨hp, hn⟩
  · obtain ⟨d, ed, hd⟩ := Grid.peel_peeled mode hm.1 hm.2 (ht.within.trans hr)
    refine ⟨some { d with reservedElsewhere := d.reservedElsewhere || t.reserved },
      decompose_of_peel hm he et hb ed, ?_, ?_⟩
    · refine iff_of_false (by simp) fun h => hb (hnone.mpr fun p hp => h p hp.1 hp.2)
    · intro d' hd'
      cases hd'
      refine ⟨hd.strips hm.1 hr ht _, fun hf => ?_⟩
      rcases Bool.or_eq_true _ _ ▸ hf with h | h
      · obtain ⟨p, hp, hres⟩ := hd.told h
        exact ⟨p, ht.within.mem hp, hres⟩
      · obtain ⟨p, hp, _, hres⟩ := ht.told h
        exact ⟨p, hp, hres⟩

/-- The flag tells of nothing that counts as work. -/
theorem decompose_strips (hm : m.grid.Sound) (mode : Mode) (roi : Rect) :
    ∃ answer, m.decompose mode roi = .ok answer ∧
      (answer = none ↔ ∀ p ∈ m.inside roi, ¬ m.grid.Needs mode p) ∧
      ∀ d, answer = some d → m.grid.Strips mode (m.inside roi) d ∧
        (d.reservedElsewhere = true → ¬ mode.Needs .reserved) := by
  obtain ⟨answer, ha, hnone, hd⟩ := decompose_answered hm mode roi
  refine ⟨answer, ha, hnone, fun d h => ⟨(hd d h).1, fun hf => ?_⟩⟩
  obtain ⟨_, _, _, hn⟩ := (hd d h).2 hf
  exact hn

/-- **The exact meaning of a decomposition.** A reachable map always answers, and with
`none` only when the region holds no work. -/
theorem decompose_exact (hm : m.Reachable) (mode : Mode) (roi : Rect) :
    ∃ answer, m.decompose mode roi = .ok answer ∧
      (answer = none ↔ ∀ p ∈ m.inside roi, ¬ m.grid.Needs mode p) ∧
      ∀ d, answer = some d → m.grid.Strips mode (m.inside roi) d := by
  obtain ⟨answer, ha, hnone, hd⟩ := decompose_strips hm.sound mode roi
  exact ⟨answer, ha, hnone, fun d h => (hd d h).1⟩

theorem decompose_exact_mixed :
    mixed.Reachable ∧ ∃ d, mixed.decompose .trimap ⟨-1, -1, 5, 5⟩ = .ok (some d) ∧
      d.interior = ⟨1, 1, 3, 3⟩ ∧ d.residual = ⟨1, 2, 2, 3⟩ ∧
      mixed.grid.Strips .trimap (mixed.inside ⟨-1, -1, 5, 5⟩) d := by
  obtain ⟨answer, ha, -, hd⟩ := decompose_exact mixed_reachable .trimap ⟨-1, -1, 5, 5⟩
  have he : mixed.decompose .trimap ⟨-1, -1, 5, 5⟩ = .ok (some
      { bbox := ⟨0, 0, 4, 4⟩, bottom := ⟨0, 0, 4, 1⟩, top := ⟨0, 3, 4, 4⟩,
        left := ⟨0, 1, 1, 3⟩, right := ⟨3, 1, 4, 3⟩, interior := ⟨1, 1, 3, 3⟩,
        residual := ⟨1, 2, 2, 3⟩, reservedElsewhere := true }) := by cbv
  rw [he] at ha
  cases ha
  exact ⟨mixed_reachable, _, he, rfl, rfl, hd _ rfl⟩

end CoverageMap

end PixelCoverage
