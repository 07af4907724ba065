import PixelCoverage.Proofs.Census
import PixelCoverage.Proofs.Steps

/-!
# What a lost claim leaves

A claim that nobody settles is dropped, and must not take its pixels with it. So they are
released first, whatever comes after: the warning before that can always be put into words, and
so can the count in the record of the release, since a live claim lists disjoint rectangles in
one region.

Last comes a census of the box around the claim, and only if somebody listens at that level. It
is the one thing that can fail here. A box whose part in the bounds ends at the greatest
coordinate is not counted, and then the claim is dropped with a fault, although its pixels are
released.
-/

namespace PixelCoverage

open Update

/-- A record of a census fails if it is to be kept and the column counter runs out. -/
theorem Shared.record_census {s : Shared} (hm : s.map.grid.Sound) (level : Log.Level) (box : Rect)
    (line : Census → String) :
    ∃ log, record level (fun m => do return line (← m.census box)) s =
      if level ≤ s.maxLevel ∧ s.map.Overruns box then .error .addOverflow s
      else .ok () { s with log } := by
  by_cases hl : level ≤ s.maxLevel
  · rcases CoverageMap.census_cases hm box with ⟨hover, hfail⟩ | ⟨hover, census, hok, _⟩
    · refine ⟨s.log, ?_⟩
      rw [if_pos ⟨hl, hover⟩]
      exact record_of_error hl (by rw [hfail]; rfl)
    · simp only [hover, and_false, if_false]
      exact record_of_ok (by rw [hok]; rfl)
  · refine ⟨s.log, ?_⟩
    rw [if_neg fun h => hl h.1]
    exact record_of_not_le hl

namespace Claim

variable {c : Claim} {s : Shared}

/-- There is no pixel in the box of no rectangles, so it can be counted. -/
theorem not_overruns_of_isIdle (m : CoverageMap) (hi : c.IsIdle) :
    ¬ m.Overruns c.work.boundingBox := by
  have hbox : c.work.boundingBox = .zero := by
    rw [WorkList.boundingBox, show c.work.rects = [] from hi]
    rfl
  rw [hbox]
  refine fun h => h.1 (Rect.isEmpty_iff_forall_not_mem.mpr fun p hp => ?_)
  exact Rect.not_mem_zero p (Rect.mem_inter.mp hp).1

/-- **A claim that is lost releases its pixels,** and fails at most afterwards, when the box
around it is to be counted. -/
theorem drop_of_area {n : Nat} (hc : c.settled = false) (hm : s.map.grid.Sound)
    (ha : c.work.area = .ok n) :
    ∃ v, CoverageMap.Marked c.work.rects .unrendered s.map v.map ∧
      c.drop s = if Log.Level.debug ≤ s.maxLevel ∧ s.map.Overruns c.work.boundingBox
        then .error .addOverflow v else .ok () v := by
  by_cases hi : c.IsIdle
  · refine ⟨s, ?_, ?_⟩
    · rw [show c.work.rects = [] from hi]
      exact CoverageMap.Marked.refl hm.1 _
    · rw [if_neg fun h => not_overruns_of_isIdle s.map hi h.2, drop, if_pos (.inr hi)]
      rfl
  rw [drop, if_neg (by simp [hc, hi])]
  refine Shared.record_bind (P := fun r => ∃ v : Shared,
    CoverageMap.Marked c.work.rects .unrendered s.map v.map ∧
      r = if Log.Level.debug ≤ s.maxLevel ∧ s.map.Overruns c.work.boundingBox
        then .error .addOverflow v else .ok () v) ?_ fun log => ?_
  · exact ⟨_, rfl⟩
  obtain ⟨v, hv, hlevel, hmark⟩ := settle_of_area (s := { s with log }) false hm.1 ha
  obtain ⟨log', hr⟩ := Shared.record_census (hmark.sound hm) .debug c.work.boundingBox
    fun census => s!"coverage after release: {census.text}"
  have hover : Log.Level.debug ≤ v.maxLevel ∧ v.map.Overruns c.work.boundingBox ↔
      Log.Level.debug ≤ s.maxLevel ∧ s.map.Overruns c.work.boundingBox := by
    rw [hlevel, CoverageMap.overruns_congr hmark.bounds]
  rw [bind_of_ok hv, hr]
  simp only [hover]
  split
  · exact ⟨v, hmark, rfl⟩
  · exact ⟨{ v with log := log' }, hmark, rfl⟩

end Claim

/-! ## Live claims -/

namespace Site

variable {s : Site} {x : Step} {steps : List Step}

/-- Claims can be taken, and those that are live can be released: their pixels can be counted. -/
structure Releasable (s : Site) : Prop where
  ready : s.Ready
  area : ∀ e ∈ s.live, ∃ n, e.2.work.area = .ok n

/-- A claim is counted when it is taken, and lists the same ever after. -/
theorem Releasable.after (h : s.Releasable) (hx : x.InRange) : (s.after x).Releasable := by
  refine ⟨h.ready.after hx, ?_⟩
  have hold : ∀ {name}, ∀ e ∈ s.others name, ∃ n, e.2.work.area = .ok n := fun e he =>
    h.area e (mem_others.mp he).1
  generalize ht : s.after x = t
  cases ht ▸ h.ready.leaves hx with
  | claim _ listed =>
    have hm := h.ready.claimable
    exact List.forall_mem_cons.mpr ⟨Claim.area_of_workList hm.sound hm.normal hx listed, hold⟩
  | complete | abort | drop => exact hold
  | markAvailable | clear | setRestriction => exact h.area

theorem Releasable.run (h : s.Releasable) (hs : ∀ x ∈ steps, x.InRange) :
    (s.run steps).Releasable := by
  induction steps generalizing s with
  | nil => exact h
  | cons x steps ih =>
    obtain ⟨hx, hs⟩ := List.forall_mem_cons.mp hs
    exact ih (h.after hx) hs

theorem releasable_of_empty (hl : s.live = []) (hm : s.shared.map.Sound)
    (hb : s.shared.map.bounds.Normal) (hr : s.shared.map.config.reservations = true) :
    s.Releasable := by
  have hnone : ∀ e, e ∉ s.live := fun e he => absurd (hl ▸ he) List.not_mem_nil
  exact ⟨⟨⟨hm, hb, hr⟩, fun e he => absurd he (hnone e)⟩, fun e he => absurd he (hnone e)⟩

/-- The claim may be dropped at any level of the log. -/
theorem Releasable.drop (h : s.Releasable) {e : String × Claim} (he : e ∈ s.live)
    (level : Log.Level) : ∃ v, CoverageMap.Marked e.2.work.rects .unrendered s.shared.map v.map ∧
      e.2.drop { s.shared with maxLevel := level } =
        if Log.Level.debug ≤ level ∧ s.shared.map.Overruns e.2.work.boundingBox
          then .error .addOverflow v else .ok () v := by
  obtain ⟨n, ha⟩ := h.area e he
  exact Claim.drop_of_area (s := { s.shared with maxLevel := level }) (h.ready.unsettled e he)
    h.ready.claimable.sound ha

/-- **A claim that is lost releases its pixels, whatever comes after.** Its pixels in the bounds
are unrendered, and nothing else of the map has changed. The drop itself fails if and only if the
census of its box is to be made, for the level of the log, and the column counter runs out. -/
theorem drop_releases (hl : s.live = []) (hm : s.shared.map.Reachable)
    (hb : s.shared.map.bounds.Normal) (hr : s.shared.map.config.reservations = true)
    (hs : ∀ x ∈ steps, x.InRange) (level : Log.Level) :
    ∀ e ∈ (s.run steps).live, ∃ v,
      CoverageMap.Marked e.2.work.rects .unrendered (s.run steps).shared.map v.map ∧
      e.2.drop { (s.run steps).shared with maxLevel := level } =
        if Log.Level.debug ≤ level ∧ (s.run steps).shared.map.Overruns e.2.work.boundingBox
          then .error .addOverflow v else .ok () v := by
  intro e he
  have hstart : s.Releasable := releasable_of_empty hl hm.sound hb hr
  exact (hstart.run hs).drop he level

/-- One pixel, in the last column that there is. -/
def edge : Site where
  shared :=
    { map := { grid := ⟨⟨maxCoord - 1, 0, maxCoord, 1⟩, #[.unrendered]⟩ }
      maxLevel := .info }

theorem edge_reachable : edge.shared.map.Reachable := by
  have hnew : CoverageMap.create ⟨maxCoord - 1, 0, maxCoord, 1⟩ = .ok edge.shared.map := rfl
  exact CoverageMap.reachable_of_create (by decide) hnew

/-- The claim on the last column. -/
def edgeClaim : Claim := ⟨⟨[⟨maxCoord - 1, 0, maxCoord, 1⟩], false⟩, false⟩

/-- What it is taken of. -/
def edgeSteps : List Step := [.claim "a" ⟨maxCoord - 1, 0, maxCoord, 1⟩]

theorem live_run_edge : (edge.run edgeSteps).live = [("a", edgeClaim)] := by cbv

theorem mem_live_run_edge : ("a", edgeClaim) ∈ (edge.run edgeSteps).live := by
  rw [live_run_edge]
  exact List.mem_singleton.mpr rfl

theorem map_run_edge : (edge.run edgeSteps).shared.map =
    { grid := ⟨⟨maxCoord - 1, 0, maxCoord, 1⟩, #[.reserved]⟩ } := by cbv

/-- The last column is released without a fault if the census is not asked for. -/
theorem drop_releases_edge :
    edge.live = [] ∧ edge.shared.map.Reachable ∧ edge.shared.map.bounds.Normal ∧
      edge.shared.map.config.reservations = true ∧ (∀ x ∈ edgeSteps, x.InRange) ∧
      ("a", edgeClaim) ∈ (edge.run edgeSteps).live ∧
      ∃ v, edgeClaim.drop { (edge.run edgeSteps).shared with maxLevel := .info } = .ok () v ∧
        v.map.grid.get? ⟨maxCoord - 1, 0⟩ = some .unrendered := by
  have hs : ∀ x ∈ edgeSteps, x.InRange := by decide
  have hp : ⟨maxCoord - 1, 0⟩ ∈ (edge.run edgeSteps).shared.map.bounds := by
    rw [map_run_edge]
    decide
  obtain ⟨v, hmark, hdrop⟩ :=
    drop_releases rfl edge_reachable (by decide) rfl hs .info _ mem_live_run_edge
  rw [if_neg fun h => absurd h.1 (by decide)] at hdrop
  exact ⟨rfl, edge_reachable, by decide, rfl, hs, mem_live_run_edge, v, hdrop,
    hmark.of_mem hp (by decide)⟩

/-- **If it is asked for, the claim is dropped with a fault,** for the last column cannot be
counted. -/
theorem drop_runs_out :
    edge.live = [] ∧ edge.shared.map.Reachable ∧ edge.shared.map.bounds.Normal ∧
      edge.shared.map.config.reservations = true ∧ (∀ x ∈ edgeSteps, x.InRange) ∧
      ∃ e ∈ (edge.run edgeSteps).live, e.2.settled = false ∧
        ∃ v, e.2.drop { (edge.run edgeSteps).shared with maxLevel := .debug } =
          .error .addOverflow v := by
  have hs : ∀ x ∈ edgeSteps, x.InRange := by decide
  have hover : (edge.run edgeSteps).shared.map.Overruns edgeClaim.work.boundingBox := by
    rw [map_run_edge]
    decide
  have h := (releasable_of_empty rfl edge_reachable.sound (by decide) rfl).run hs
  obtain ⟨v, _, hdrop⟩ := h.drop mem_live_run_edge .debug
  rw [if_pos ⟨by decide, hover⟩] at hdrop
  exact ⟨rfl, edge_reachable, by decide, rfl, hs, _, mem_live_run_edge, rfl, v, hdrop⟩

end Site

end PixelCoverage
