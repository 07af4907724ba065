import PixelCoverage.Proofs.Progress
import PixelCoverage.Proofs.World

/-!
# A claim without reservations is refused as a whole

A map that takes no reservations refuses the first rectangle of a claim that has a pixel in the
bounds. Whatever stands before it in the list has none, so nothing has been written when the claim
fails, not even to the log.

A list has such a rectangle exactly when a pixel of the region is unrendered. On a map like this
there is no other work, since it holds no reserved pixel either. What is left of a region without
it are the bands outside the bounds. They can be claimed by anyone, at any time and more than
once, and settling them writes nothing.
-/

namespace PixelCoverage

open Update

namespace Claim

variable {c : Claim} {s u : Shared} {roi bounds : Rect} {p : Pixel}

/-- The claim lists no pixel inside some bounds. -/
def Outside (c : Claim) (bounds : Rect) : Prop := ∀ r ∈ c.work.rects, ¬ r.Meets bounds

/-! ## Refused -/

/-- **An unrendered pixel of the region refuses the claim** before anything is written. -/
theorem take_of_unrendered (hm : s.map.grid.Sound) (hb : s.map.bounds.Normal)
    (hoff : s.map.config.reservations = false) (hp : p ∈ s.map.inside roi)
    (hun : s.map.grid.get? p = some .unrendered) :
    take roi s = .error .reservationsDisabled s := by
  obtain ⟨w, inside, hw, hl⟩ := CoverageMap.workList_listed hm .trimap roi
  obtain ⟨r, hr, hpr⟩ := (hl.exists_mem_iff hb hun).mpr hp
  have hmeets : r.Meets s.map.bounds :=
    Rect.meets_iff.mpr ⟨p, hpr, (CoverageMap.mem_inside.mp hp).2⟩
  have hno : ¬ s.map.config.Accepts .reserved := fun ha =>
    absurd (hoff.symm.trans (ha rfl)) Bool.false_ne_true
  have hq : query (fun s : Shared => s.map.workList .trimap roi) s = .ok w s := query_of_ok hw
  rw [take, bind_of_ok hq, bind_of_error (Shared.writeClipped_of_not_accepts hno ⟨r, hr, hmeets⟩)]

/-! ## Granted -/

/-- Without an unrendered pixel in the region the bands outside the bounds are claimed, and
nobody is told to wait. -/
theorem take_of_rendered (hm : s.map.grid.Sound) (hb : s.map.bounds.Normal) (hroi : roi.InRange)
    (hres : ∀ p, s.map.grid.get? p ≠ some .reserved)
    (hno : ∀ p ∈ s.map.inside roi, s.map.grid.get? p ≠ some .unrendered) :
    ∃ c t, take roi s = .ok c t ∧ t.map = s.map ∧ c.settled = false ∧ c.Outside s.map.bounds ∧
      c.work.reservedElsewhere = false := by
  obtain ⟨w, inside, hw, hl⟩ := CoverageMap.workList_listed hm .trimap roi
  have hout : ∀ r ∈ w.rects, ¬ r.Meets s.map.bounds := by
    intro r hr
    refine (hl.unmixed hb r hr).resolve_left fun hsub => ?_
    obtain ⟨p, hp, hun⟩ := hl.exists_unrendered hb ⟨r, hr, hsub⟩
    exact hno p hp hun
  have hflag : w.reservedElsewhere = false := by
    rw [Bool.eq_false_iff]
    intro hf
    obtain ⟨p, _, hp, _⟩ := hl.told hf
    exact hres p hp
  obtain ⟨log, htake⟩ :=
    take_of_written hm hb hroi hw (Shared.writeClipped_of_apart .reserved hout)
  exact ⟨_, _, htake, rfl, rfl, hout, hflag⟩

/-- However it ends, a claim outside the bounds leaves the map as it is. -/
theorem Outside.map_left (h : c.Outside u.map.bounds) (hc : c.settled = false) :
    (c.complete.left u).map = u.map ∧ (c.abort.left u).map = u.map ∧
      (c.drop.left u).map = u.map := by
  have hsettle : ∀ (rendered : Bool) (v : Shared), v.map = u.map →
      ((c.settle rendered).left v).map = u.map := by
    intro rendered v hv
    have hout : ∀ r ∈ c.work.rects, ¬ r.Meets v.map.bounds := hv ▸ h
    rw [map_left_settle, left_of_ok (Shared.writeClipped_of_apart _ hout), hv]
  refine ⟨?_, ?_, left_drop (P := (· = u.map)) hc fun t ht => hsettle false t ht⟩
  · rw [complete, left_settle_drop]
    exact hsettle true u rfl
  · rw [abort, left_settle_drop]
    exact hsettle false u rfl

end Claim

namespace World

variable {κ : Type} [DecidableEq κ] {w : World κ} {roi : Rect}

/-- **Without reservations, a claim is all or nothing.** It fails if and only if some pixel of the
region is unrendered, and then it is as if nobody had tried. Otherwise it lists nothing in the
bounds, tells of nobody, and leaves the map as it is, both when it is taken and when it ends. -/
theorem claim_all_or_nothing (hw : w.Reached) (hb : w.site.shared.map.bounds.Normal)
    (hoff : w.site.shared.map.config.reservations = false) (hroi : roi.InRange) :
    ((∃ f t, Claim.take roi w.site.shared = .error f t) ↔
      ∃ p ∈ w.site.shared.map.inside roi, w.site.shared.map.grid.get? p = some .unrendered) ∧
    (∀ f t, Claim.take roi w.site.shared = .error f t →
      f = .reservationsDisabled ∧ t = w.site.shared ∧
        ∀ name steps, w.site.run (.claim name roi :: steps) = w.site.run steps) ∧
    ∀ c t, Claim.take roi w.site.shared = .ok c t →
      t.map = w.site.shared.map ∧ c.Outside w.site.shared.map.bounds ∧
        c.work.reservedElsewhere = false ∧
        ∀ u : Shared, u.map.bounds = w.site.shared.map.bounds →
          (c.complete.left u).map = u.map ∧ (c.abort.left u).map = u.map ∧
            (c.drop.left u).map = u.map := by
  by_cases hex : ∃ p ∈ w.site.shared.map.inside roi,
      w.site.shared.map.grid.get? p = some .unrendered
  · obtain ⟨p, hp, hun⟩ := hex
    have hrefused := Claim.take_of_unrendered hw.sound hb hoff hp hun
    have hafter : ∀ name, w.site.after (.claim name roi) = w.site := fun name => by
      rw [Site.after_eq_left, Site.left_claim, hrefused]
    refine ⟨iff_of_true ⟨_, _, hrefused⟩ ⟨p, hp, hun⟩, fun f t ht => ?_, fun c t ht => ?_⟩
    · rw [hrefused] at ht
      cases ht
      refine ⟨rfl, rfl, fun name steps => ?_⟩
      rw [Site.run, List.foldl_cons, hafter]
      rfl
    · rw [hrefused] at ht
      cases ht
  · have hno : ∀ p ∈ w.site.shared.map.inside roi,
        w.site.shared.map.grid.get? p ≠ some .unrendered := fun p hp hun => hex ⟨p, hp, hun⟩
    obtain ⟨c, t, hc, hmap, hopen, hout, hflag⟩ :=
      Claim.take_of_rendered hw.sound hb hroi (hw.not_reserved hoff) hno
    refine ⟨iff_of_false (fun hf => ?_) hex, fun f t ht => ?_, fun d v hd => ?_⟩
    · obtain ⟨f, t, ht⟩ := hf
      rw [hc] at ht
      cases ht
    · rw [hc] at ht
      cases ht
    · rw [hc] at hd
      cases hd
      exact ⟨hmap, hout, hflag, fun u hu =>
        Claim.Outside.map_left (show c.Outside u.map.bounds from hu ▸ hout) hopen⟩

/-- Three pixels without reservations, the first of which is unrendered. -/
def plain : World Unit where
  site :=
    { shared :=
        { map :=
            { grid := ⟨⟨0, 0, 3, 1⟩, #[.unrendered, .available, .available]⟩
              config := .single }
          maxLevel := .warn } }
  maps := ⟨[((), ⟨⟨⟨0, 0, 3, 1⟩, #[.unrendered, .available, .available]⟩, none, .single⟩)]⟩

theorem plain_reached : plain.Reached := by
  have h : plain.maps.Session :=
    .step (c := .write () ⟨1, 0, 3, 1⟩ .available)
      (.step (c := .create () ⟨0, 0, 3, 1⟩ .single) .empty (show Rect.InRange _ by decide) trivial
        nofun)
      (show Rect.InRange _ by decide) trivial nofun
  have hm : plain.maps.get? () = some plain.site.shared.map := rfl
  exact .share h hm rfl

/-- With the first pixel a region is refused, and without it only what is outside is listed. -/
theorem claim_all_or_nothing_plain :
    plain.Reached ∧ plain.site.shared.map.bounds.Normal ∧
      plain.site.shared.map.config.reservations = false ∧ Rect.InRange ⟨-2, 0, 2, 1⟩ ∧
      Rect.InRange ⟨1, 0, 9, 1⟩ ∧
      (∃ f t, Claim.take ⟨-2, 0, 2, 1⟩ plain.site.shared = .error f t ∧
        f = .reservationsDisabled ∧ t = plain.site.shared) ∧
      ∃ c t, Claim.take ⟨1, 0, 9, 1⟩ plain.site.shared = .ok c t ∧ c.Lists ⟨5, 0⟩ ∧
        c.Outside plain.site.shared.map.bounds ∧ (c.complete.left t).map = t.map := by
  have hb : plain.site.shared.map.bounds.Normal := by decide
  have hwith : Rect.InRange ⟨-2, 0, 2, 1⟩ := by decide
  have hwithout : Rect.InRange ⟨1, 0, 9, 1⟩ := by decide
  obtain ⟨hiff, hrefused, _⟩ := claim_all_or_nothing plain_reached hb rfl hwith
  obtain ⟨_, _, hgranted⟩ := claim_all_or_nothing plain_reached hb rfl hwithout
  obtain ⟨f, t, ht⟩ := hiff.mpr ⟨⟨0, 0⟩, by decide, rfl⟩
  have hc : Claim.take ⟨1, 0, 9, 1⟩ plain.site.shared =
      .ok ⟨⟨[⟨3, 0, 9, 1⟩], false⟩, false⟩ plain.site.shared := by cbv
  obtain ⟨hf, hsame, _⟩ := hrefused f t ht
  obtain ⟨_, hout, _, hends⟩ := hgranted _ _ hc
  exact ⟨plain_reached, hb, rfl, hwith, hwithout, ⟨f, t, ht, hf, hsame⟩, _, _, hc, by decide, hout,
    (hends _ rfl).1⟩

end World

end PixelCoverage
