import Mathlib
import PixelCoverage.Claim.Site
import PixelCoverage.Proofs.Claims

/-!
# No reservation is ever stuck

A reserved pixel is left alone by every worker but one, so if there is nobody who is going
to settle it, it is never rendered. The invariant of a site says that there always is
somebody:

* a reserved pixel lies in a rectangle of some live claim;
* a live claim is not settled, so that losing it frees what it holds;
* live claims have different names, so that settling one loses no other.

Claims may overlap and end in any order. That does no harm, because a claim frees all its
pixels, those that others hold as well: a pixel can lose its reservation early, but never
its holder. A claim that ends in a fault is no longer live, yet its pixels are written
before anything can go wrong.
-/

namespace PixelCoverage.Site

open Update

variable {s : Site}

/-! ## Names -/

theorem mem_of_claim? {name : String} {c : Claim} (h : s.claim? name = some c) :
    (name, c) ∈ s.live := by
  obtain ⟨l₁, l₂, hl, _⟩ := List.lookup_eq_some_iff.mp h
  rw [hl]
  exact List.mem_append_right _ List.mem_cons_self

/-- With different names, the claim of a name is the one that is found. -/
theorem claim?_of_mem {e : String × Claim} (hn : (s.live.map Prod.fst).Nodup) (he : e ∈ s.live) :
    s.claim? e.1 = some e.2 := by
  cases h : s.claim? e.1 with
  | none =>
    have hne := List.lookup_eq_none_iff.mp h e he
    exact absurd hne (by simp)
  | some c =>
    have heq : (e.1, c) = e := List.inj_on_of_nodup_map hn (mem_of_claim? h) he rfl
    rw [← heq]

theorem names_filter {live : List (String × Claim)} (hn : (live.map Prod.fst).Nodup)
    (p : String × Claim → Bool) : ((live.filter p).map Prod.fst).Nodup :=
  List.Nodup.sublist (List.filter_sublist.map _) hn

/-! ## The invariant -/

/-- The claim is live and holds the pixel. -/
def Holds (s : Site) (e : String × Claim) (p : Pixel) : Prop :=
  e ∈ s.live ∧ ∃ r ∈ e.2.work.rects, p ∈ r

/-- Every reserved pixel has a holder who can still be waited for. -/
structure Guarded (s : Site) : Prop where
  inRange : s.shared.map.bounds.InRange
  solid : s.shared.map.Solid
  names : (s.live.map Prod.fst).Nodup
  unsettled : ∀ e ∈ s.live, e.2.settled = false
  held : ∀ p, s.shared.map.grid.get? p = some .reserved → ∃ e, s.Holds e p

/-- The numbers of a step are coordinates. -/
def Step.InRange : Step → Prop
  | .claim _ roi => roi.InRange
  | .markAvailable rect | .clear rect => rect.InRange
  | .setRestriction r => ∀ rect ∈ r, rect.InRange
  | .complete _ | .abort _ | .drop _ => True

theorem after_eq_left (s : Site) (c : Step) : s.after c = (step c).left s := by
  unfold after left
  cases step c s with
  | ok _ t => rfl
  | error _ t => rfl

theorem left_onShared {α : Type} (u : Update Shared α) (s : Site) :
    (onShared u).left s = { s with shared := u.left s.shared } := left_onPart _ _ u s

/-- A change of the map that reserves nothing leaves the holders as they are. -/
theorem Guarded.of_freed {shared : Shared} (h : s.Guarded)
    (hf : CoverageMap.Freed [] s.shared.map shared.map) : Guarded { s with shared } where
  inRange := hf.bounds ▸ h.inRange
  solid := hf.solid
  names := h.names
  unsettled := h.unsettled
  held p hp := h.held p (hf.reserved p hp).1

/-! ## The end of a claim -/

/-- A claim is no longer live when what ends it begins. -/
theorem left_ending (name : String) (u : Claim → Update Shared Unit) (s : Site) :
    (ending name u).left s =
      match s.claim? name with
      | none => s
      | some c =>
        { shared := (u c).left s.shared, live := s.live.filter fun e => e.1 ≠ name } := by
  unfold ending
  rw [left_bind]
  simp only [get, getThe, MonadStateOf.get, EStateM.get]
  cases s.claim? name with
  | none => rfl
  | some c =>
    simp only [left_bind, modify, modifyGet, MonadStateOf.modifyGet, EStateM.modifyGet,
      left_onShared]

/-- A claim can be ended by whatever frees its pixels. -/
theorem Guarded.of_ending {name : String} {u : Claim → Update Shared Unit} (h : s.Guarded)
    (hu : ∀ c : Claim, c.settled = false →
      CoverageMap.Freed c.work.rects s.shared.map ((u c).left s.shared).map) :
    Guarded ((ending name u).left s) := by
  rw [left_ending]
  cases hc : s.claim? name with
  | none => exact h
  | some c =>
    have hf := hu c (h.unsettled _ (mem_of_claim? hc))
    refine ⟨hf.bounds ▸ h.inRange, hf.solid, names_filter h.names _, ?_, ?_⟩
    · intro e he
      exact h.unsettled e (List.mem_filter.mp he).1
    · intro p hp
      obtain ⟨hres, hout⟩ := hf.reserved p hp
      obtain ⟨e, he, r, hr, hpr⟩ := h.held p hres
      -- the pixel is not one of those that were freed, so another claim holds it
      have hne : e.1 ≠ name := by
        intro heq
        have hsame := claim?_of_mem h.names he
        rw [heq, hc] at hsame
        cases hsame
        exact hout r hr hpr
      exact ⟨e, List.mem_filter.mpr ⟨he, by simpa using hne⟩, r, hr, hpr⟩

/-! ## A new claim -/

theorem left_claim (name : String) (roi : Rect) (s : Site) :
    (step (.claim name roi)).left s =
      match Claim.take roi s.shared with
      | .error _ t => { s with shared := t }
      | .ok c t =>
        { shared := match s.claim? name with
            | none => t
            | some old => old.drop.left t
          live := (name, c) :: s.live.filter fun e => e.1 ≠ name } := by
  unfold step
  rw [left_bind]
  cases ht : Claim.take roi s.shared with
  | error f t => simp only [onShared, onPart, ht]
  | ok c t =>
    simp only [onShared, onPart, ht, left_bind, get, getThe, MonadStateOf.get, EStateM.get, modify,
      modifyGet, MonadStateOf.modifyGet, EStateM.modifyGet, claim?]
    cases s.live.lookup name with
    | none => rfl
    | some old => exact left_onShared old.drop _

/-- A new claim holds what it has reserved, and the one that had its name may free its own. -/
theorem Guarded.of_claimed {name : String} {c : Claim} {t u : Shared} {rects : List Rect}
    (h : s.Guarded) (hc : c.settled = false)
    (hclaimed : CoverageMap.Claimed c.work.rects s.shared.map t.map)
    (hf : CoverageMap.Freed rects t.map u.map)
    (hold : ∀ e ∈ s.live, e.1 = name → e.2.work.rects = rects) :
    Guarded { shared := u, live := (name, c) :: s.live.filter fun e => e.1 ≠ name } where
  inRange := by
    show u.map.bounds.InRange
    rw [hf.bounds, hclaimed.bounds]
    exact h.inRange
  solid := hf.solid
  names := by
    rw [List.map_cons, List.nodup_cons]
    refine ⟨?_, names_filter h.names _⟩
    intro hin
    obtain ⟨e, he, heq⟩ := List.mem_map.mp hin
    exact absurd heq (by simpa using (List.mem_filter.mp he).2)
  unsettled e he := by
    rcases List.mem_cons.mp he with heq | he
    · rw [heq]
      exact hc
    · exact h.unsettled e (List.mem_filter.mp he).1
  held p hp := by
    obtain ⟨hres, hout⟩ := hf.reserved p hp
    rcases hclaimed.reserved p hres with hres | hnew
    · obtain ⟨e, he, r, hr, hpr⟩ := h.held p hres
      have hne : e.1 ≠ name := by
        intro heq
        rw [hold e he heq] at hr
        exact hout r hr hpr
      have hin : e ∈ s.live.filter fun e => e.1 ≠ name :=
        List.mem_filter.mpr ⟨he, by simpa using hne⟩
      exact ⟨e, List.mem_cons_of_mem _ hin, r, hr, hpr⟩
    · exact ⟨(name, c), List.mem_cons_self, hnew⟩

theorem Guarded.of_claim {roi : Rect} (name : String) (h : s.Guarded) (hroi : roi.InRange) :
    Guarded ((step (.claim name roi)).left s) := by
  rw [left_claim]
  cases ht : Claim.take roi s.shared with
  | error f t => exact h.of_freed (Claim.freed_of_take h.solid h.inRange hroi ht)
  | ok c t =>
    obtain ⟨hc, _, hclaimed, _⟩ := Claim.take_ok h.solid ht
    cases hn : s.claim? name with
    | none =>
      refine h.of_claimed hc hclaimed (CoverageMap.Freed.refl hclaimed.solid) fun e he heq => ?_
      have hsome := claim?_of_mem h.names he
      rw [heq, hn] at hsome
      exact absurd hsome (by simp)
    | some old =>
      have hopen := h.unsettled _ (mem_of_claim? hn)
      have hf := Claim.freed_of_drop hopen hclaimed.solid
      refine h.of_claimed hc hclaimed hf fun e he heq => ?_
      have hsome := claim?_of_mem h.names he
      rw [heq, hn] at hsome
      rw [Option.some.inj hsome]

/-! ## Steps and runs -/

/-- **Every step keeps a holder for every reserved pixel.** -/
theorem Guarded.after {c : Step} (h : s.Guarded) (hc : c.InRange) : (s.after c).Guarded := by
  rw [after_eq_left]
  cases c with
  | claim name roi => exact h.of_claim name hc
  | complete name => exact h.of_ending fun c _ => Claim.freed_of_complete c h.solid
  | abort name => exact h.of_ending fun c _ => Claim.freed_of_abort c h.solid
  | drop name => exact h.of_ending fun c hc => Claim.freed_of_drop hc h.solid
  | markAvailable rect =>
    have hne : PixelState.available ≠ .reserved := by decide
    rw [step, left_onShared]
    exact h.of_freed (Shared.freed_of_write rect hne h.solid)
  | clear rect =>
    have hne : PixelState.unrendered ≠ .reserved := by decide
    rw [step, left_onShared]
    exact h.of_freed (Shared.freed_of_write rect hne h.solid)
  | setRestriction r =>
    exact h.of_freed ⟨rfl, h.solid, fun p hp => ⟨hp, by simp⟩⟩

theorem Guarded.run {steps : List Step} (h : s.Guarded) (hs : ∀ c ∈ steps, c.InRange) :
    (s.run steps).Guarded := by
  induction steps generalizing s with
  | nil => exact h
  | cons c steps ih =>
    obtain ⟨hc, hs⟩ := List.forall_mem_cons.mp hs
    exact ih (h.after hc) hs

/-- A site without claims and without reservations. -/
theorem guarded_of_empty (hl : s.live = []) (hb : s.shared.map.bounds.InRange)
    (hr : ∀ p, s.shared.map.grid.get? p ≠ some .reserved) : s.Guarded where
  inRange := hb
  solid p hp := absurd hp (hr p)
  names := by rw [hl]; exact List.nodup_nil
  unsettled := by rw [hl]; exact fun e he => absurd he List.not_mem_nil
  held p hp := absurd hp (hr p)

/-- Whoever is told of others can wait for one of them. -/
theorem Guarded.holder {roi : Rect} {c : Claim} {t : Shared} (h : s.Guarded)
    (ht : Claim.take roi s.shared = .ok c t) (hi : c.IsIdle)
    (hf : c.work.reservedElsewhere = true) :
    ∃ p ∈ roi, t.map.grid.get? p = some .reserved ∧ ∃ e, s.Holds e p := by
  obtain ⟨_, hw, _, hmap⟩ := Claim.take_ok h.solid ht
  obtain ⟨p, hp, hres⟩ := Claim.exists_reserved_of_workList h.inRange hw hf
  rw [hmap hi]
  exact ⟨p, hp, hres, h.held p hres⟩

/-- **No reservation is ever stuck.** From a map without reservations, whatever the workers
do and in whatever order, each reserved pixel has a live claim that lists it. -/
theorem no_stuck_reservation {steps : List Step} (hl : s.live = [])
    (hb : s.shared.map.bounds.InRange) (hr : ∀ p, s.shared.map.grid.get? p ≠ some .reserved)
    (hs : ∀ c ∈ steps, c.InRange) :
    (∀ p, (s.run steps).shared.map.grid.get? p = some .reserved →
      ∃ e ∈ (s.run steps).live, e.2.settled = false ∧ ∃ r ∈ e.2.work.rects, p ∈ r) ∧
    ((s.run steps).live = [] → ∀ p, (s.run steps).shared.map.grid.get? p ≠ some .reserved) ∧
    ∀ roi c t, Claim.take roi (s.run steps).shared = .ok c t → c.IsIdle →
      c.work.reservedElsewhere = true →
      ∃ e ∈ (s.run steps).live, e.2.settled = false ∧
        ∃ p ∈ roi, t.map.grid.get? p = some .reserved ∧ ∃ r ∈ e.2.work.rects, p ∈ r := by
  have h := (guarded_of_empty hl hb hr).run hs
  refine ⟨?_, ?_, ?_⟩
  · intro p hp
    obtain ⟨e, he, hlist⟩ := h.held p hp
    exact ⟨e, he, h.unsettled e he, hlist⟩
  · intro hnil p hp
    obtain ⟨e, he, _⟩ := h.held p hp
    rw [hnil] at he
    exact absurd he List.not_mem_nil
  · intro roi c t ht hi hf
    obtain ⟨p, hp, hres, e, he, hlist⟩ := h.holder ht hi hf
    exact ⟨e, he, h.unsettled e he, p, hp, hres, hlist⟩

/-- A map of which nothing is rendered, and nobody at work. -/
def fresh : Site where
  shared :=
    { map := { grid := ⟨⟨0, 0, 4, 4⟩, Array.replicate 16 .unrendered⟩ }
      maxLevel := .warn }

/-- Two workers share it, and one of them is done. -/
def sharing : List Step :=
  [.claim "a" ⟨0, 0, 3, 2⟩, .claim "b" ⟨0, 0, 4, 4⟩, .complete "a",
    .setRestriction (some ⟨0, 0, 4, 3⟩)]

/-- A third one is told to wait, and the second one is there to be waited for. -/
theorem no_stuck_reservation_sharing :
    (∀ c ∈ sharing, c.InRange) ∧ (fresh.run sharing).live.map Prod.fst = ["b"] ∧
      ∃ e ∈ (fresh.run sharing).live, e.2.settled = false ∧
        ∃ p ∈ (⟨2, 0, 4, 3⟩ : Rect),
          (fresh.run sharing).shared.map.grid.get? p = some .reserved ∧
            ∃ r ∈ e.2.work.rects, p ∈ r := by
  have hr : ∀ p, fresh.shared.map.grid.get? p ≠ some .reserved := by
    intro p hp
    by_cases hin : p ∈ fresh.shared.map.grid.bounds
    · rw [Grid.get?_of_mem hin] at hp
      have hst := Array.mem_of_getElem? hp
      exact absurd (Array.mem_replicate.mp hst).2 (by decide)
    · rw [Grid.get?_of_not_mem hin] at hp
      exact absurd hp (by simp)
  have hs : ∀ c ∈ sharing, c.InRange := by
    simp only [sharing, List.forall_mem_cons, Step.InRange, List.not_mem_nil, false_implies,
      implies_true, and_true, Option.mem_def, Option.some.injEq, forall_eq']
    decide
  have ht : Claim.take ⟨2, 0, 4, 3⟩ (fresh.run sharing).shared =
      .ok ⟨⟨[], true⟩, false⟩ (fresh.run sharing).shared := by cbv
  obtain ⟨_, _, hwait⟩ := no_stuck_reservation rfl (by decide) hr hs
  exact ⟨hs, by cbv, hwait _ _ _ ht rfl rfl⟩

end PixelCoverage.Site
