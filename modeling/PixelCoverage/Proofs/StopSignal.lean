import PixelCoverage.Proofs.Flag
import PixelCoverage.Proofs.Steps

/-!
# When a worker may stop

A worker claims its region again and again until there is nothing to compute and nobody to
wait for. That answer must not come too early, and it must come: it is given exactly when
every pixel of the region is available.

A pixel is available only because somebody has completed a claim that lists it. A claim may
reserve a finished pixel once more, and giving that claim up takes the pixel back, but no
step other than `complete` ever makes one available.
-/

namespace PixelCoverage.Site

open CoverageMap

variable {s t : Site} {x : Step} {steps : List Step} {p : Pixel}

/-- An available pixel was so before, or a claim that lists it has just been completed. -/
theorem Leaves.available (h : s.Leaves x t) (hx : x.ByClaim)
    (hp : t.shared.map.grid.get? p = some .available) :
    (∃ c, s.completed x = some c ∧ c.Lists p) ∨
      s.shared.map.grid.get? p = some .available := by
  cases h with
  | claim _ _ reserved freed =>
    have hmid := (freed.kept hp (by decide)).1
    exact Or.inr (reserved.kept hmid (by decide)).1
  | @complete name _ done =>
    by_cases hl : ∃ r ∈ s.rectsOf name, p ∈ r
    · exact Or.inl (exists_mem_rectsOf.mp hl)
    · exact Or.inr (done.of_not_mem hl ▸ hp)
  | abort freed | drop freed => exact Or.inr (freed.kept hp (by decide)).1
  | markAvailable | clear | setRestriction => exact absurd hx id

/-- **What is available was completed.** -/
theorem Blank.exists_completion (hs : s.Blank) (hb : s.shared.map.bounds.Normal)
    (hr : ∀ x ∈ steps, x.InRange) (hc : ∀ x ∈ steps, x.ByClaim) :
    ∀ p, (s.run steps).shared.map.grid.get? p = some .available →
      ∃ c ∈ s.completions steps, c.Lists p := by
  refine (hs.working hb).run_induction (P := fun before => ∀ p,
    (s.run before).shared.map.grid.get? p = some .available →
      ∃ c ∈ s.completions before, c.Lists p) hr ?_ fun before x hp _ hl ih p hav => ?_
  · intro p hp
    have hun := hs.unrendered p (Grid.mem_bounds_of_get? hp)
    rw [run, List.foldl_nil, hun] at hp
    exact absurd hp (by simp)
  · have hx := hc x (hp.subset List.mem_concat_self)
    rw [completions_concat]
    rcases hl.available hx hav with ⟨c, hdone, hlist⟩ | hav
    · exact ⟨c, List.mem_append_right _ (by rw [hdone]; exact List.mem_singleton_self c), hlist⟩
    · obtain ⟨c, hmem, hlist⟩ := ih p hav
      exact ⟨c, List.mem_append_left _ hmem, hlist⟩

/-- **The stop signal.** Whatever the workers do and in whatever order, a claim of a region in
the bounds comes back with nothing to compute and nobody to wait for exactly when the region
is available, and then every pixel of it is listed by a claim that was completed before. -/
theorem stop_iff_available {roi : Rect} (hs : s.Blank) (hb : s.shared.map.bounds.Normal)
    (hn : s.shared.map.restriction = none)
    (hsteps : ∀ x ∈ steps, x.ByClaim ∧ x.InRange) (hroi : roi.InRange)
    (hin : roi ⊆ s.shared.map.bounds) :
    ∃ c t, Claim.take roi (s.run steps).shared = .ok c t ∧
      ((c.IsIdle ∧ c.work.reservedElsewhere = false) ↔
        ∀ p ∈ roi, (s.run steps).shared.map.grid.get? p = some .available) ∧
      (c.IsIdle → c.work.reservedElsewhere = false →
        ∀ p ∈ roi, ∃ d ∈ s.completions steps, ∃ r ∈ d.work.rects, p ∈ r) := by
  have hr : ∀ x ∈ steps, x.InRange := fun x hx => (hsteps x hx).2
  have hc : ∀ x ∈ steps, x.ByClaim := fun x hx => (hsteps x hx).1
  have hw := hs.working hb
  have hm := (hw.run hr).claimable
  obtain ⟨c, t, ht, hlist, _⟩ := Claim.take_of_claimable hm hroi
  -- nothing narrows the region, and all of it lies in the bounds
  have hnarrow : (s.run steps).shared.map.narrowed roi = roi := by
    rw [narrowed, hw.restriction_run hr hc, hn]
  have hbounds : ∀ p ∈ roi, p ∈ (s.run steps).shared.map.bounds :=
    fun p hp => (hw.mem_bounds_run hr).mpr (Rect.mem_of_subset hin hp)
  have hstop : (c.IsIdle ∧ c.work.reservedElsewhere = false) ↔
      ∀ p ∈ roi, (s.run steps).shared.map.grid.get? p = some .available := by
    refine (flagged_of_workList hm.sound hm.normal hlist).finished.trans ?_
    rw [hnarrow]
    exact forall₂_congr fun p hp => and_iff_right (hbounds p hp)
  refine ⟨c, t, ht, hstop, fun hi hf p hp => ?_⟩
  exact hs.exists_completion hb hr hc p (hstop.mp ⟨hi, hf⟩ p hp)

/-- Claims that overlap: `c` reserves a pixel that is finished and one that `b` holds, and is
given up. -/
def overlapping : List Step :=
  [.claim "a" ⟨0, 0, 1, 1⟩, .claim "b" ⟨1, 1, 2, 2⟩, .complete "a", .claim "c" ⟨-1, 0, 2, 2⟩,
    .abort "c", .complete "b", .claim "d" ⟨0, 0, 2, 2⟩, .complete "d"]

theorem stop_iff_available_overlapping :
    fresh.Blank ∧ (∀ x ∈ overlapping, x.ByClaim ∧ x.InRange) ∧
      (∃ c t, Claim.take ⟨0, 0, 2, 2⟩ (fresh.run overlapping).shared = .ok c t ∧ c.IsIdle ∧
        c.work.reservedElsewhere = false) ∧
      ∀ p ∈ (⟨0, 0, 2, 2⟩ : Rect),
        (fresh.run overlapping).shared.map.grid.get? p = some .available ∧
          ∃ d ∈ fresh.completions overlapping, ∃ r ∈ d.work.rects, p ∈ r := by
  have hsteps : ∀ x ∈ overlapping, x.ByClaim ∧ x.InRange := by decide
  have hroi : Rect.InRange ⟨0, 0, 2, 2⟩ := by decide
  have hin : (⟨0, 0, 2, 2⟩ : Rect) ⊆ fresh.shared.map.bounds := by decide
  obtain ⟨c, t, ht, hstop, hdone⟩ :=
    stop_iff_available fresh_blank (by decide) rfl hsteps hroi hin
  have he : Claim.take ⟨0, 0, 2, 2⟩ (fresh.run overlapping).shared =
      .ok ⟨⟨[], false⟩, false⟩ (fresh.run overlapping).shared := by cbv
  rw [he] at ht
  cases ht
  exact ⟨fresh_blank, hsteps, ⟨_, _, he, rfl, rfl⟩,
    fun p hp => ⟨hstop.mp ⟨rfl, rfl⟩ p hp, hdone rfl rfl p hp⟩⟩

end PixelCoverage.Site
