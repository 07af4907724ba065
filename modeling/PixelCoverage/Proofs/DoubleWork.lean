import PixelCoverage.Proofs.Flag
import PixelCoverage.Proofs.Release

/-!
# Where work is done twice

Two live claims can have a pixel in common, for a claim lists the residual of its region
whole. That is the only way: the strips of a decomposition hold nothing but unrendered pixels,
and as long as nobody frees anything, the pixels of a live claim are reserved or available.
So whoever comes later can list a pixel of an earlier claim in its residual, or in its one box
if the map does not cut boxes into strips, and nowhere else.
-/

namespace PixelCoverage

/-! ## What a list is made of -/

namespace CoverageMap

variable {m : CoverageMap} {roi : Rect} {mode : Mode} {w : WorkList} {p : Pixel}

/-- The pixel lies in the residual of a region, or in its uncovered box if the box is not cut
into strips. Only such a pixel may be listed while somebody else works on it. -/
def Shareable (m : CoverageMap) (roi : Rect) (p : Pixel) : Prop :=
  if m.config.decomposeBorders then
    ∃ d, m.decompose .trimap roi = .ok (some d) ∧ p ∈ d.residual ∧ ∀ r ∈ d.strips, p ∉ r
  else ∃ t, m.uncoveredBox .trimap roi = .ok t ∧ p ∈ t.rect

/-- A pixel of the bounds is listed for the work inside them. -/
theorem exists_inside_of_workList (hm : m.grid.Sound) (hb : m.bounds.Normal)
    (h : m.workList mode roi = .ok w) (hp : p ∈ m.bounds) (hl : ∃ r ∈ w.rects, p ∈ r) :
    ∃ inside, m.grid.workInside mode m.config.decomposeBorders (m.inside roi) = .ok inside ∧
      ∃ r ∈ inside.rects, p ∈ r := by
  obtain ⟨inside, hi, _⟩ := Grid.workInside_worked mode m.config.decomposeBorders
    (m.narrowed roi) hm.1 hm.2
  rw [workList_of_workInside hm hi] at h
  cases h
  obtain ⟨r, hr, hpr⟩ := hl
  rcases List.mem_append.mp hr with hout | hin
  · exact absurd hp (mem_outside_narrowed hb hout hpr).2
  · exact ⟨inside, hi, r, hin, hpr⟩

/-- With the strips, it lies in one of them or in the residual. -/
theorem decompose_of_workInside (hm : m.grid.Sound)
    (h : m.grid.workInside mode true (m.inside roi) = .ok w) (hl : ∃ r ∈ w.rects, p ∈ r) :
    ∃ d, m.decompose mode roi = .ok (some d) ∧ ((∃ r ∈ d.strips, p ∈ r) ∨ p ∈ d.residual) := by
  have hne : w.rects ≠ [] := fun hnil => absurd hl (by simp [hnil])
  obtain ⟨he, t, et, hbox, d, ed, hw⟩ := Grid.rects_of_workInside h hne
  rw [hw] at hl
  exact ⟨_, decompose_of_peel hm he et hbox ed, Decomposition.exists_mem_work_iff.mp hl⟩

/-- Without them, it lies in the uncovered box. -/
theorem uncoveredBox_of_workInside (hm : m.grid.Sound)
    (h : m.grid.workInside mode false (m.inside roi) = .ok w) (hl : ∃ r ∈ w.rects, p ∈ r) :
    ∃ t, m.uncoveredBox mode roi = .ok t ∧ p ∈ t.rect := by
  obtain ⟨r, hr, hp⟩ := hl
  obtain ⟨he, t, et, _, hw⟩ := Grid.rects_of_workInside h (List.ne_nil_of_mem hr)
  rw [hw] at hr
  exact ⟨t, (uncoveredBox_of_not_isEmpty hm he).trans et, List.mem_singleton.mp hr ▸ hp⟩

/-- **Strips are not shared.** A listed pixel of the bounds that is no work lies in the residual
of the region and in no strip. -/
theorem shareable_of_workList (hm : m.Claimable) (h : m.workList .trimap roi = .ok w)
    (hp : p ∈ m.bounds) (hl : ∃ r ∈ w.rects, p ∈ r) (hn : m.grid.get? p ≠ some .unrendered) :
    m.Shareable roi p := by
  obtain ⟨inside, hi, hl⟩ := exists_inside_of_workList hm.sound hm.normal h hp hl
  unfold Shareable
  cases hon : m.config.decomposeBorders with
  | false =>
    rw [hon] at hi
    exact uncoveredBox_of_workInside hm.sound hi hl
  | true =>
    rw [hon] at hi
    obtain ⟨d, hd, hpart⟩ := decompose_of_workInside hm.sound hi hl
    obtain ⟨answer, ha, _, hstrips⟩ := decompose_strips hm.sound .trimap roi
    rw [hd] at ha
    cases ha
    have hout : ∀ r ∈ d.strips, p ∉ r := by
      intro r hr hpr
      obtain ⟨st, hst, hneeds⟩ := (hstrips d rfl).1.strips r hr p hpr
      rw [Mode.needs_trimap] at hneeds
      exact hn (hneeds ▸ hst)
    refine ⟨d, hd, hpart.resolve_left fun hin => ?_, hout⟩
    obtain ⟨r, hr, hpr⟩ := hin
    exact hout r hr hpr

end CoverageMap

/-! ## Runs that free nothing -/

namespace Site

open CoverageMap

variable {s t : Site} {x : Step} {steps before : List Step} {e f : String × Claim} {p : Pixel}

/-- A run in which nobody frees a pixel: nothing is cleared, and no claim is given up. -/
structure Unfreed (s : Site) (steps : List Step) : Prop where
  inRange : ∀ x ∈ steps, x.InRange
  notCleared : ∀ x ∈ steps, ∀ rect, x ≠ .clear rect
  notGivenUp : s.givenUps steps = []

theorem Unfreed.of_prefix (h : s.Unfreed steps) (hp : before <+: steps) : s.Unfreed before where
  inRange x hx := h.inRange x (hp.subset hx)
  notCleared x hx := h.notCleared x (hp.subset hx)
  notGivenUp := by
    obtain ⟨after, rfl⟩ := hp
    have hall := h.notGivenUp
    rw [givenUps, gathered_append, List.append_eq_nil_iff] at hall
    exact hall.1

/-- Where nothing is given up, nothing has been given up since. -/
theorem Unfreed.not_givenUpSince (h : s.Unfreed steps) : ¬ s.GivenUpSince steps e p := by
  intro hg
  obtain ⟨before, x, after, b, rfl, hb, _⟩ := hg
  have hall := h.notGivenUp
  rw [givenUps, gathered_append, gathered, hb] at hall
  exact absurd hall (by simp)

/-- The pixels of a live claim are not unrendered. -/
theorem Unfreed.ne_unrendered (h : s.Unfreed steps) (hs : s.Blank)
    (hb : s.shared.map.bounds.Normal) (he : e ∈ (s.run steps).live) (hl : e.2.Lists p) :
    (s.run steps).shared.map.grid.get? p ≠ some .unrendered :=
  fun hun => h.not_givenUpSince (hs.givenUpSince hb h.inRange h.notCleared e he p hl hun)

/-- `e` was claimed after `f`, both are live since then, and they share no pixel of the bounds
but in the residual of the region that `e` was claimed for. -/
def SharesResidual (s : Site) (steps : List Step) (e f : String × Claim) : Prop :=
  ∃ before roi after t, steps = before ++ .claim e.1 roi :: after ∧
    Claim.take roi (s.run before).shared = .ok e.2 t ∧
    s.LiveSince (before ++ [.claim e.1 roi]) after e ∧
    s.LiveSince before (.claim e.1 roi :: after) f ∧
    ∀ p ∈ s.shared.map.bounds, e.2.Lists p → f.2.Lists p →
      (s.run before).shared.map.Shareable roi p

theorem SharesResidual.concat (h : s.SharesResidual steps e f)
    (he : e ∈ (s.run (steps ++ [x])).live) (hf : f ∈ (s.run (steps ++ [x])).live) :
    s.SharesResidual (steps ++ [x]) e f := by
  obtain ⟨before, roi, after, t, rfl, htake, hle, hlf, hshare⟩ := h
  refine ⟨before, roi, after ++ [x], t, by simp, htake, hle.concat ?_, hlf.concat ?_, hshare⟩
  · simpa using he
  · simpa using hf

/-- A step leaves live claims only, unless it adds one. -/
theorem Leaves.live_sublist (h : s.Leaves x t) : t.live.Sublist s.live ∨
    ∃ name roi c v, x = .claim name roi ∧ Claim.take roi s.shared = .ok c v ∧
      s.shared.map.workList .trimap roi = .ok c.work ∧ t.live = (name, c) :: s.others name := by
  cases h with
  | claim taken listed => exact Or.inr ⟨_, _, _, _, rfl, taken, listed, rfl⟩
  | complete | abort | drop => exact Or.inl List.filter_sublist
  | markAvailable | clear | setRestriction => exact Or.inl (List.Sublist.refl _)

/-- Of any two live claims the one that was taken later shares its residual only. -/
theorem Unfreed.live_pairwise (h : s.Unfreed steps) (hs : s.Blank)
    (hb : s.shared.map.bounds.Normal) :
    (s.run steps).live.Pairwise (s.SharesResidual steps) := by
  refine (hs.working hb).run_induction
    (P := fun before => (s.run before).live.Pairwise (s.SharesResidual before)) h.inRange ?_ ?_
  · rw [run, List.foldl_nil, hs.live]
    exact List.Pairwise.nil
  intro before x hp hw hl ih
  -- what stays live goes on as it was
  have keep : ∀ l, List.Sublist l (s.run before).live →
      (∀ e ∈ l, e ∈ (s.run (before ++ [x])).live) →
      l.Pairwise (s.SharesResidual (before ++ [x])) :=
    fun l hsub hin => (ih.sublist hsub).imp_of_mem fun he hf hef =>
      hef.concat (hin _ he) (hin _ hf)
  rcases hl.live_sublist with hsub | ⟨name, roi, c, v, rfl, htake, hlist, hlive⟩
  · exact keep _ hsub fun e he => he
  have hothers : ∀ f ∈ (s.run before).others name, f ∈ (s.run (before ++ [.claim name roi])).live :=
    fun f hf => hlive ▸ List.mem_cons_of_mem _ hf
  rw [hlive]
  refine List.pairwise_cons.mpr ⟨fun f hf => ?_, keep _ List.filter_sublist hothers⟩
  have hbefore := h.of_prefix ((List.prefix_append before _).trans hp)
  have hfl : f ∈ (s.run before).live := (mem_others.mp hf).1
  refine ⟨before, roi, [], v, rfl, htake, liveSince_nil (hlive ▸ List.mem_cons_self), ?_, ?_⟩
  · refine (liveSince_nil hfl).concat ?_
    rw [List.append_nil]
    exact hothers f hf
  · intro p hp hc hf
    have hin := ((hs.working hb).mem_bounds_run hbefore.inRange).mpr hp
    exact shareable_of_workList hw.claimable hlist hin hc (hbefore.ne_unrendered hs hb hfl hf)

/-- **Double work is confined to residuals.** As long as nobody frees a pixel, what a live claim
lists in the bounds is reserved or available, and of any two live claims the later one shares
with the earlier one only pixels of its residual, never one of its strips. -/
theorem double_work_confined (hs : s.Blank) (hb : s.shared.map.bounds.Normal)
    (h : s.Unfreed steps) :
    (∀ e ∈ (s.run steps).live, ∀ p ∈ s.shared.map.bounds, e.2.Lists p →
      (s.run steps).shared.map.grid.get? p = some .reserved ∨
        (s.run steps).shared.map.grid.get? p = some .available) ∧
    (s.run steps).live.Pairwise (s.SharesResidual steps) := by
  refine ⟨fun e he p hp hl => ?_, h.live_pairwise hs hb⟩
  have hw := (hs.working hb).run h.inRange
  have hin := ((hs.working hb).mem_bounds_run h.inRange).mpr hp
  exact hw.claimable.reserved_or_available hin (h.ne_unrendered hs hb he hl)

/-- Around a pixel that is reserved and one that is available, a claim has no strips. -/
def surrounding : List Step :=
  [.setRestriction (some ⟨0, 0, 2, 2⟩), .claim "a" ⟨0, 0, 1, 1⟩, .markAvailable ⟨1, 1, 2, 2⟩,
    .claim "b" ⟨0, 0, 4, 4⟩]

theorem double_work_confined_surrounding :
    fresh.Blank ∧ fresh.Unfreed surrounding ∧
      ∃ a b, (fresh.run surrounding).live = [("b", b), ("a", a)] ∧ a.Lists ⟨0, 0⟩ ∧
        b.Lists ⟨0, 0⟩ ∧ fresh.SharesResidual surrounding ("b", b) ("a", a) ∧
        ((fresh.run surrounding).shared.map.grid.get? ⟨0, 0⟩ = some .reserved ∨
          (fresh.run surrounding).shared.map.grid.get? ⟨0, 0⟩ = some .available) := by
  have hunfreed : fresh.Unfreed surrounding :=
    ⟨by decide, by simp [surrounding], by cbv⟩
  have hlive : (fresh.run surrounding).live = [("b", ⟨⟨[⟨0, 0, 2, 2⟩], true⟩, false⟩),
      ("a", ⟨⟨[⟨0, 0, 1, 1⟩], false⟩, false⟩)] := by cbv
  obtain ⟨hstate, hpairs⟩ := double_work_confined fresh_blank (by decide) hunfreed
  rw [hlive] at hpairs hstate
  have hlist : Claim.Lists ⟨⟨[⟨0, 0, 2, 2⟩], true⟩, false⟩ ⟨0, 0⟩ := by decide
  exact ⟨fresh_blank, hunfreed, _, _, hlive, by decide, hlist,
    (List.pairwise_cons.mp hpairs).1 _ (List.mem_singleton_self _),
    hstate _ List.mem_cons_self ⟨0, 0⟩ (by decide) hlist⟩

end Site

end PixelCoverage
