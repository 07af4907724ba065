import PixelCoverage.Proofs.Flag

/-!
# A region in one state

If all of a region is in one state, the answer about it is all or nothing. What the general
theorems say of a work list does not tell which rectangles it is made of, so here the passes
count: the first of them that looks for a strip takes the whole region, and leaves no row for
the others.
-/

namespace PixelCoverage

namespace Rect

variable {r s : Rect}

theorem Within.eq_of_subset (h : r.Within s) (hs : s ⊆ r) (he : ¬ s.IsEmpty) : r = s := by
  obtain ⟨rx0, ry0, rx1, ry1⟩ := r
  obtain ⟨sx0, sy0, sx1, sy1⟩ := s
  obtain ⟨h1, _, h3, h4, _, h6⟩ := h
  obtain ⟨k1, k2, k3, k4⟩ := hs.resolve_left he
  simp only at h1 h3 h4 h6 k1 k2 k3 k4
  rw [Rect.mk.injEq]
  omega

/-- A rectangle with pixels that lies in another is what the two have in common. -/
theorem inter_eq_left (h : r ⊆ s) (he : ¬ r.IsEmpty) : r ∩ s = r := by
  have hall : r ⊆ r ∩ s := subset_iff.mpr fun p hp => mem_inter.mpr ⟨hp, mem_of_subset h hp⟩
  obtain ⟨p, hp⟩ := not_isEmpty_iff_exists_mem.mp he
  have hne : ¬ (r ∩ s).IsEmpty := not_isEmpty_iff_exists_mem.mpr ⟨p, mem_of_subset hall hp⟩
  exact (within_of_subset (inter_subset_left r s) hne).eq_of_subset hall he

theorem outside_of_subset (hs : s.Normal) (h : r ⊆ s) : r.outside s = [] :=
  (outside_eq_nil_iff hs).mpr fun _ hp => mem_of_subset h hp

end Rect

namespace Grid

variable {g : Grid} {m : Mode} {r : Rect} {d : Decomposition}

/-- Where everything is work, nothing stops the pass that looks for the bottom strip. -/
theorem trimBottom_of_needs (hg : g.Sized) (hb : g.bounds.InRange) (hr : r.Within g.bounds)
    (hall : ∀ p ∈ r, g.Needs m p) :
    ∃ f, g.trimBottom .pending m r = .ok ⟨⟨r.x0, r.y1, r.x1, r.y1⟩, f⟩ := by
  obtain ⟨e, f, he, hp⟩ := trimBottom_passed .pending m hg hb hr
  rcases Int.lt_or_eq_of_le hp.within.rows with hlt | heq
  · obtain ⟨p, hpt, _, hstop⟩ := hp.rests hlt
    exact absurd hstop (not_needs_and_blocks (hall p (hp.within.mem hpt)))
  · simp only at heq
    exact ⟨f, heq ▸ he⟩

/-- The bottom strip ends where the first pass has come to rest. -/
theorem bottom_of_peel {t : Trimmed} (ht : g.trimBottom .pending m r = .ok t)
    (h : g.peel m r = .ok d) : d.bottom = .ofEdges r.x0 r.y0 r.x1 t.rect.y0 := by
  unfold peel at h
  obtain ⟨below, hbelow, h⟩ := exists_of_bind_ok h
  rw [ht] at hbelow
  cases hbelow
  obtain ⟨above, _, h⟩ := exists_of_bind_ok h
  obtain ⟨sides, _, h⟩ := exists_of_bind_ok h
  simp only at h
  split at h
  · obtain ⟨_, _, h⟩ := exists_of_bind_ok h
    cases h
    rfl
  · obtain ⟨_, hfault, _⟩ := exists_of_bind_ok h
    exact nomatch hfault

/-- If the bottom strip is the whole box, all other parts are empty. -/
theorem Peeled.work_of_bottom (h : g.Peeled m r d) (hbot : d.bottom = r) (he : ¬ r.IsEmpty) :
    d.work = [r] := by
  obtain ⟨⟨_, _, _, h1⟩, ⟨h2, _, _, h3⟩, ⟨h4, h5, _⟩, h6, h7, _⟩ := h.tiles
  have hrows := h.within.rows
  have htop := h.within.top
  have hlow := h.residual_within.bottom
  have hhigh := h.residual_within.top
  rw [h.bbox_eq] at h2
  rw [hbot] at h1
  have e1 : d.top.IsEmpty := Or.inr (by omega)
  have e2 : d.left.IsEmpty := Or.inr (by omega)
  have e3 : d.right.IsEmpty := Or.inr (by omega)
  have e4 : d.residual.IsEmpty := Or.inr (by omega)
  simp [Decomposition.work, Decomposition.strips, hbot, he, e1, e2, e3, e4]

/-- The work in a region that is nothing but work is the region. -/
theorem workInside_of_needs (on : Bool) (hg : g.Sized) (hb : g.bounds.InRange)
    (hr : r.Within g.bounds) (he : ¬ r.IsEmpty) (hall : ∀ p ∈ r, g.Needs m p) :
    g.workInside m on r = .ok ⟨[r], false⟩ := by
  obtain ⟨⟨rect, f⟩, et, ht⟩ := uncoveredBox_boxed m hg hb hr
  have hrect : rect = r := ht.within.eq_of_subset
    (Rect.subset_iff.mpr fun p hp => ht.isBox.holds p ⟨hp, hall p hp⟩) he
  subst hrect
  have hf : f = false := by
    rw [Bool.eq_false_iff]
    intro hf
    obtain ⟨p, hp, hout, _⟩ := ht.reserved.mp hf
    exact hout hp
  subst hf
  cases on with
  | false => exact workInside_of_box he et he
  | true =>
    obtain ⟨d, ed, hd⟩ := peel_peeled m hg hb hr
    obtain ⟨f, ef⟩ := trimBottom_of_needs hg hb hr hall
    have hbot : d.bottom = rect := by
      rw [bottom_of_peel ef ed, Rect.ofEdges_eq_of_le hr.columns hr.rows]
    have hquiet : d.reservedElsewhere = false := by
      rw [Bool.eq_false_iff]
      intro hf
      obtain ⟨p, hp, hres, hn⟩ := hd.told hf
      exact not_needs_and_blocks (hall p hp) ⟨_, hres, hn⟩
    rw [workInside_of_strips he et he ed, hd.work_of_bottom hbot he, hquiet]
    rfl

end Grid

namespace CoverageMap

variable {m : CoverageMap} {roi r : Rect} {st : PixelState}

/-- All pixels of the rectangle are in one state. -/
def Uniform (m : CoverageMap) (r : Rect) (st : PixelState) : Prop :=
  ∀ p ∈ r, m.grid.get? p = some st

/-- A rectangle with pixels has one state only. -/
theorem Uniform.unique {k : PixelState} (h : m.Uniform r st) (hk : m.Uniform r k)
    (hr : ¬ r.IsEmpty) : st = k := by
  obtain ⟨p, hp⟩ := Rect.not_isEmpty_iff_exists_mem.mp hr
  exact Option.some.inj ((h p hp).symm.trans (hk p hp))

/-- The list of a region that is nothing but work. -/
theorem workList_of_needs {mode : Mode} (hm : m.grid.Sound) (hb : m.bounds.Normal)
    (hin : m.narrowed roi ⊆ m.bounds) (he : ¬ (m.narrowed roi).IsEmpty)
    (hall : ∀ p ∈ m.narrowed roi, m.grid.Needs mode p) :
    m.workList mode roi = .ok ⟨[m.narrowed roi], false⟩ := by
  have hinter : m.inside roi = m.narrowed roi := Rect.inter_eq_left hin he
  have hout : (m.narrowed roi).outside m.bounds = [] := Rect.outside_of_subset hb hin
  have hw : m.grid.workInside mode m.config.decomposeBorders (m.inside roi) =
      .ok ⟨[m.narrowed roi], false⟩ := by
    rw [hinter]
    exact Grid.workInside_of_needs _ hm.1 hm.2 (Rect.within_of_subset hin he) he hall
  rw [workList_of_workInside hm hw, hout, List.nil_append]

/-- All of a rectangle or nothing, by its state. -/
def allOrNothing (r : Rect) : PixelState → WorkList
  | .unrendered => ⟨[r], false⟩
  | .available => ⟨[], false⟩
  | .reserved => ⟨[], true⟩

/-- **The list of a region in one state.** -/
theorem workList_of_uniform (hm : m.grid.Sound) (hb : m.bounds.Normal)
    (hin : m.narrowed roi ⊆ m.bounds) (he : ¬ (m.narrowed roi).IsEmpty)
    (hu : m.Uniform (m.narrowed roi) st) :
    m.workList .trimap roi = .ok (allOrNothing (m.narrowed roi) st) := by
  have hbounds : ∀ p ∈ m.narrowed roi, p ∈ m.bounds := fun p hp => Rect.mem_of_subset hin hp
  obtain ⟨⟨rects, f⟩, _, hw, _⟩ := workList_listed hm .trimap roi
  have hf := flagged_of_workList hm hb hw
  cases st with
  | unrendered => exact workList_of_needs hm hb hin he fun p hp => ⟨_, hu p hp, by simp⟩
  | available =>
    obtain ⟨hnil, hflag⟩ := hf.finished.mpr fun p hp => ⟨hbounds p hp, hu p hp⟩
    simp only at hnil hflag
    rw [hw, hnil, hflag]
    rfl
  | reserved =>
    obtain ⟨p, hp⟩ := Rect.not_isEmpty_iff_exists_mem.mp he
    obtain ⟨hnil, hflag⟩ := hf.waiting.mpr
      ⟨fun p hp => ⟨hbounds p hp, Or.inr (hu p hp)⟩, p, hp, hu p hp⟩
    simp only at hnil hflag
    rw [hw, hnil, hflag]
    rfl

end CoverageMap

end PixelCoverage
