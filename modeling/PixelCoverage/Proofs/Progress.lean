import PixelCoverage.Proofs.DoubleWork

/-!
# Claims get somewhere

Workers that find pixels missing claim again and again, and may well be handed pixels that
others hold or have finished. That it comes to an end all the same is due to a number that a
claim can only lower: that of the unrendered pixels.

* A claim takes all unrendered pixels of its region and none besides, since it lists all work
  and nothing outside the region.
* If it lists anything inside the bounds there is one at least, since a box is not listed
  without work in it, and its strips and residual together are not either.
* What is no claim, and frees nothing, leaves no pixel unrendered that was not so before.

So in a run that frees nothing, each claim with work inside the bounds costs a pixel.
-/

namespace PixelCoverage

/-! ## Counting pixels -/

namespace CoverageMap

variable {m n : CoverageMap} {roi region : Rect} {w inside : WorkList} {st : PixelState} {p : Pixel}

/-- All unrendered pixels of a map. -/
def unrendered (m : CoverageMap) : Finset Pixel := m.pixelsIn .unrendered m.bounds

@[simp] theorem mem_unrendered : p ∈ m.unrendered ↔ m.grid.get? p = some .unrendered := by
  rw [unrendered, mem_pixelsIn]
  exact and_iff_right_of_imp Grid.mem_bounds_of_get?

/-! ## One claim -/

/-- Of the unrendered pixels, a list holds those of its region. -/
theorem Listed.exists_mem_iff (h : m.Listed .trimap roi w inside) (hb : m.bounds.Normal)
    (hp : m.grid.get? p = some .unrendered) : (∃ r ∈ w.rects, p ∈ r) ↔ p ∈ m.inside roi := by
  have hin : p ∈ m.bounds := Grid.mem_bounds_of_get? hp
  rw [mem_inside]
  refine ⟨fun hl => ⟨?_, hin⟩, fun hr => h.covers hb hr.1 (.inr ⟨_, hp, rfl⟩)⟩
  obtain ⟨r, hr, hpr⟩ := hl
  exact Rect.mem_of_subset (h.within hb r hr) hpr

/-- What is listed in the bounds is listed for a pixel that needs it. -/
theorem Listed.exists_unrendered (h : m.Listed .trimap roi w inside) (hb : m.bounds.Normal)
    (hl : ∃ r ∈ w.rects, r ⊆ m.bounds) : ∃ p ∈ m.inside roi, m.grid.get? p = some .unrendered := by
  by_contra hno
  -- without work in the region the list has nothing but bands, and none of these is inside
  have hnil : inside.rects = [] := by
    refine h.worked.idle fun p hp hn => hno ⟨p, hp, ?_⟩
    obtain ⟨s, hs, hneeds⟩ := hn
    rw [hs, Mode.needs_trimap.mp hneeds]
  obtain ⟨r, hr, hsub⟩ := hl
  rw [h.rects, hnil, List.append_nil] at hr
  exact Rect.not_subset_of_mem_outside hb hr hsub

/-- What a claim of a region makes of the unrendered pixels. It lists `w`, and leaves `n`. -/
structure Lowers (m : CoverageMap) (roi : Rect) (w : WorkList) (n : CoverageMap) : Prop where
  /-- The number falls by that of the region. -/
  card : n.unrendered.card + (m.pixelsIn .unrendered (m.inside roi)).card = m.unrendered.card
  /-- There is none left in the region. -/
  taken : ∀ p ∈ m.inside roi, n.grid.get? p ≠ some .unrendered
  /-- There was one, if anything is listed inside the bounds. -/
  pos : (∃ r ∈ w.rects, r ⊆ m.bounds) → 1 ≤ (m.pixelsIn .unrendered (m.inside roi)).card

/-- **A claim takes the unrendered pixels of its region,** all of them and no others. -/
theorem Listed.lowers (h : m.Listed .trimap roi w inside) (hb : m.bounds.Normal)
    (hn : Marked w.rects .reserved m n) : m.Lowers roi w n := by
  have hleft : ∀ p, n.grid.get? p = some .unrendered ↔
      m.grid.get? p = some .unrendered ∧ p ∉ m.inside roi := by
    intro p
    refine ⟨fun hp => ?_, fun hp => ?_⟩
    · obtain ⟨hold, hout⟩ := hn.kept hp (by simp)
      exact ⟨hold, fun hin => hout ((h.exists_mem_iff hb hold).mpr hin)⟩
    · rw [hn.of_not_mem fun hl => hp.2 ((h.exists_mem_iff hb hp.1).mp hl)]
      exact hp.1
  refine ⟨?_, fun p hp hun => ((hleft p).mp hun).2 hp, fun hl => ?_⟩
  · have hrest : n.unrendered = m.unrendered.filter (· ∉ m.inside roi) :=
      Finset.ext fun p => by simp [hleft]
    have htaken : m.pixelsIn .unrendered (m.inside roi) =
        m.unrendered.filter (· ∈ m.inside roi) := Finset.ext fun p => by simp [and_comm]
    rw [hrest, htaken, Nat.add_comm]
    exact Finset.card_filter_add_card_filter_not _
  · obtain ⟨p, hp, hun⟩ := h.exists_unrendered hb hl
    exact Finset.card_pos.mpr ⟨p, mem_pixelsIn.mpr ⟨hp, hun⟩⟩

theorem lowers_of_workList (hm : m.Claimable) (h : m.workList .trimap roi = .ok w)
    (hn : Marked w.rects .reserved m n) : m.Lowers roi w n := by
  obtain ⟨w', inside, hw, hl⟩ := workList_listed hm.sound .trimap roi
  rw [h] at hw
  cases hw
  exact hl.lowers hm.normal hn

end CoverageMap

/-! ## Runs -/

/-- The claim lists a rectangle inside the bounds. -/
def Claim.ListsInside (c : Claim) (bounds : Rect) : Prop := ∃ r ∈ c.work.rects, r ⊆ bounds

instance (c : Claim) (bounds : Rect) : Decidable (c.ListsInside bounds) :=
  inferInstanceAs (Decidable (∃ r ∈ c.work.rects, r ⊆ bounds))

namespace Site

open CoverageMap

variable {s t : Site} {x : Step} {steps : List Step}

/-- The claim that a step takes. -/
def claimed (s : Site) : Step → Option Claim
  | .claim _ roi =>
    match Claim.take roi s.shared with
    | .ok c _ => some c
    | .error _ _ => none
  | .complete _ | .abort _ | .drop _ | .markAvailable _ | .clear _ | .setRestriction _ => none

/-- The claims that are taken in a run. -/
def claims (s : Site) (steps : List Step) : List Claim := gathered claimed s steps

/-- A step that frees nothing leaves no pixel unrendered that was not so before. -/
theorem Leaves.unrendered_subset (h : s.Leaves x t) (hx : ∀ rect, x ≠ .clear rect)
    (hg : s.givenUp x = none) : t.shared.map.unrendered ⊆ s.shared.map.unrendered := by
  intro p hp
  rw [mem_unrendered] at hp ⊢
  rcases h.unrendered hx hp with ⟨b, hb, _⟩ | ⟨hold, _⟩
  · rw [hg] at hb
    exact absurd hb (by simp)
  · exact hold

/-- **A claim with work inside the bounds costs a pixel,** and no step makes one. -/
theorem Leaves.card_claimed_le (h : s.Leaves x t) (hs : s.Ready) (hx : ∀ rect, x ≠ .clear rect)
    (hg : s.givenUp x = none) :
    (s.claimed x).toList.countP (·.ListsInside s.shared.map.bounds) + t.shared.map.unrendered.card ≤
      s.shared.map.unrendered.card := by
  have hsub := Finset.card_le_card (h.unrendered_subset hx hg)
  cases h with
  | @claim name roi c t u taken listed reserved freed =>
    have hlow := lowers_of_workList hs.claimable listed reserved
    -- the name was free, so that no old claim frees what it holds
    have hold : s.rectsOf name = [] := rectsOf_of_none hg
    have hcard : u.map.unrendered = t.map.unrendered := by
      rw [hold] at freed
      exact Finset.ext fun p => by simp [freed.of_not_mem (p := p) (by simp)]
    have hc : s.claimed (.claim name roi) = some c := by rw [claimed, taken]
    have htaken := hlow.card
    rw [hc, hcard, Option.toList_some, List.countP_singleton]
    split
    · rename_i hin
      have hpos := hlow.pos (of_decide_eq_true hin)
      omega
    · omega
  | complete | abort | drop | markAvailable | clear | setRestriction =>
    exact (Nat.zero_add _).trans_le hsub

theorem Unfreed.tail (h : s.Unfreed (x :: steps)) : (s.after x).Unfreed steps where
  inRange := (List.forall_mem_cons.mp h.inRange).2
  notCleared := (List.forall_mem_cons.mp h.notCleared).2
  notGivenUp := (List.append_eq_nil_iff.mp h.notGivenUp).2

/-- **Claims with work inside the bounds are bounded.** What they have not used up of the
unrendered pixels is still there. -/
theorem Ready.countP_claims_le (hs : s.Ready) (h : s.Unfreed steps) :
    (s.claims steps).countP (·.ListsInside s.shared.map.bounds) +
      (s.run steps).shared.map.unrendered.card ≤ s.shared.map.unrendered.card := by
  induction steps generalizing s with
  | nil => exact (Nat.zero_add _).le
  | cons x steps ih =>
    have hx : x.InRange := h.inRange x List.mem_cons_self
    have hl := hs.leaves hx
    have hgiven : s.givenUp x = none :=
      Option.toList_eq_nil_iff.mp (List.append_eq_nil_iff.mp h.notGivenUp).1
    have hstep := hl.card_claimed_le hs (h.notCleared x List.mem_cons_self) hgiven
    have hrest := ih (hs.after hx) h.tail
    rw [hl.bounds] at hrest
    have hclaims : s.claims (x :: steps) = (s.claimed x).toList ++ (s.after x).claims steps := rfl
    have hrun : s.run (x :: steps) = (s.after x).run steps := rfl
    rw [hclaims, hrun, List.countP_append]
    omega

/-- **Claims make progress, and those with work are bounded.** From any state of a shared map,
a claim takes the unrendered pixels of its region and lists nothing inside the bounds unless
there are some; what frees no pixel makes none unrendered; and so a run that frees none has no
more claims with work inside the bounds than there are unrendered pixels when it begins. -/
theorem claims_bounded (hs : s.Reached) (hb : s.shared.map.bounds.Normal)
    (hr : s.shared.map.config.reservations = true) :
    (∀ roi : Rect, roi.InRange → ∃ c t, Claim.take roi s.shared = .ok c t ∧
      s.shared.map.Lowers roi c.work t.map) ∧
    (∀ x : Step, x.InRange → (∀ rect, x ≠ .clear rect) → s.givenUp x = none →
      (s.after x).shared.map.unrendered ⊆ s.shared.map.unrendered) ∧
    ∀ steps, s.Unfreed steps →
      (s.claims steps).countP (·.ListsInside s.shared.map.bounds) ≤
        s.shared.map.unrendered.card := by
  have h := hs.ready hb hr
  refine ⟨fun roi hroi => ?_, fun x hx hc hg => (h.leaves hx).unrendered_subset hc hg,
    fun steps hsteps => ?_⟩
  · obtain ⟨c, t, ht, hw, hm⟩ := Claim.take_of_claimable h.claimable hroi
    exact ⟨c, t, ht, lowers_of_workList h.claimable hw hm⟩
  · exact Nat.le_of_add_right_le (h.countP_claims_le hsteps)

/-- Of 16 unrendered pixels, a claim of a corner takes 6; and there are two claims with work in
the run around a pixel that is held by one worker and handed to another. -/
theorem claims_bounded_surrounding :
    fresh.Reached ∧ fresh.shared.map.bounds.Normal ∧
      fresh.shared.map.config.reservations = true ∧ fresh.shared.map.unrendered.card = 16 ∧
      (∃ c t, Claim.take ⟨0, 0, 3, 2⟩ fresh.shared = .ok c t ∧ c.ListsInside ⟨0, 0, 4, 4⟩ ∧
        (fresh.shared.map.pixelsIn .unrendered ⟨0, 0, 3, 2⟩).card = 6 ∧
        t.map.unrendered.card = 10) ∧
      fresh.Unfreed surrounding ∧
      (fresh.claims surrounding).countP (·.ListsInside ⟨0, 0, 4, 4⟩) = 2 ∧
      (fresh.claims surrounding).countP (·.ListsInside ⟨0, 0, 4, 4⟩) ≤ 16 := by
  have hb : fresh.shared.map.bounds.Normal := by decide
  have hall : fresh.shared.map.unrendered.card = 16 := rfl
  have hcorner : (fresh.shared.map.pixelsIn .unrendered ⟨0, 0, 3, 2⟩).card = 6 := rfl
  have hunfreed : fresh.Unfreed surrounding := ⟨by decide, by simp [surrounding], by cbv⟩
  obtain ⟨htake, _, hruns⟩ := claims_bounded fresh_reached hb rfl
  obtain ⟨c, t, ht, hlow⟩ := htake ⟨0, 0, 3, 2⟩ (by decide)
  have hlist : c.work = ⟨[⟨0, 0, 3, 2⟩], false⟩ := by
    have hw : fresh.shared.map.workList .trimap ⟨0, 0, 3, 2⟩ = .ok ⟨[⟨0, 0, 3, 2⟩], false⟩ := by cbv
    exact Except.ok.inj ((Claim.take_eq_ok ht).2.1.symm.trans hw)
  have hinside : c.ListsInside ⟨0, 0, 4, 4⟩ := by
    rw [Claim.ListsInside, hlist]
    decide
  have hcard := hlow.card
  have hin : fresh.shared.map.inside ⟨0, 0, 3, 2⟩ = ⟨0, 0, 3, 2⟩ := rfl
  rw [hin, hcorner, hall] at hcard
  have hrun := hruns surrounding hunfreed
  rw [hall] at hrun
  exact ⟨fresh_reached, hb, rfl, hall, ⟨c, t, ht, hinside, hcorner, by omega⟩, hunfreed,
    by cbv, hrun⟩

end Site

end PixelCoverage
