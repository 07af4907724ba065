import PixelCoverage.Proofs.Area
import PixelCoverage.Proofs.World

/-!
# A claim is settled as it was taken

Between the moment a claim is taken and the one it is settled anything may happen to the map: it
may have other bounds by then, be another map, or take no reservations any more. The claim does
not look. It lists what it listed, its pixels can be counted as they could when it was taken, and
what it writes is clipped to the bounds that it finds. As neither of the two states it writes is
refused by any map, it always goes through.

If nothing happens in between, to take a claim and to abort it marks the same pixels twice. Then
the bytes of the map are what they were, unless the claim listed a pixel that was not unrendered.
-/

namespace PixelCoverage

open Update

/-! ## Bytes and pixels -/

theorem PixelState.toByte_injective : Function.Injective PixelState.toByte := by
  intro s t h
  exact Option.some.inj ((ofByte?_eq_some_iff.mpr h).symm.trans (ofByte?_eq_some_iff.mpr rfl)).symm

namespace CoverageMap

variable {m n o : CoverageMap} {rects : List Rect} {st st' : PixelState}

/-- Maps with the same bounds have the same bytes if and only if they have the same pixels. -/
theorem bytes_eq_iff (hb : n.bounds = m.bounds) (hnormal : m.bounds.Normal) (hn : n.grid.Sized)
    (hm : m.grid.Sized) : n.bytes = m.bytes ↔ ∀ p, n.grid.get? p = m.grid.get? p := by
  refine ⟨fun h p => ?_, fun h => ?_⟩
  · have hcells : n.grid.cells = m.grid.cells :=
      Array.toList_inj.mp (PixelState.toByte_injective.list_map h)
    have hgrid : n.grid = m.grid := by
      obtain ⟨⟨b, cells⟩, _, _⟩ := n
      exact congrArg₂ Grid.mk hb hcells
    rw [hgrid]
  · rw [bytes, bytes, Grid.ext_get? hb hnormal hn hm h]

/-- Of two marks of the same rectangles the second counts. -/
theorem Marked.again (h : Marked rects st m n) (h' : Marked rects st' n o) :
    Marked rects st' m o where
  restriction := h'.restriction.trans h.restriction
  config := h'.config.trans h.config
  bounds := h'.bounds.trans h.bounds
  sized := h'.sized
  get? p := by
    rw [h'.get?, h.bounds, h.get?]
    split <;> rfl

/-- A mark changes nothing if what is marked had the state before. -/
theorem Marked.get?_eq_iff (h : Marked rects st m n) :
    (∀ p, n.grid.get? p = m.grid.get? p) ↔
      ∀ p ∈ m.bounds, (∃ r ∈ rects, p ∈ r) → m.grid.get? p = some st := by
  refine ⟨fun heq p hp hl => ?_, fun hall p => ?_⟩
  · rw [← heq p, h.of_mem hp hl]
  · rw [h.get?]
    split
    · rename_i hp
      exact (hall p hp.1 hp.2).symm
    · rfl

end CoverageMap

/-! ## Claims -/

namespace Claim

variable {c : Claim} {s t u : Shared} {roi : Rect}

/-- What becomes of the claim when it is settled on `u`: the map is left as it is in `v`, and
there is nothing to do for the drop that follows. -/
structure Settles (c : Claim) (rendered : Bool) (u v : Shared) : Prop where
  settle : c.settle rendered u = .ok { c with settled := true } v
  drop : ({ c with settled := true } : Claim).drop v = .ok () v
  marked : CoverageMap.Marked c.work.rects (if rendered then .available else .unrendered) u.map
    v.map

/-- A claim that can be counted is settled on any map that has its cells. -/
theorem exists_settles {n : Nat} (ha : c.work.area = .ok n) (hu : u.map.grid.Sized)
    (rendered : Bool) : ∃ v, c.Settles rendered u v := by
  obtain ⟨v, hv, _, hmark⟩ := settle_of_area rendered hu ha
  exact ⟨v, hv, drop_of_settled rfl v, hmark⟩

theorem Settles.complete {v : Shared} (h : c.Settles true u v) : c.complete u = .ok () v :=
  (bind_of_ok h.settle _).trans h.drop

theorem Settles.abort {v : Shared} (h : c.Settles false u v) : c.abort u = .ok () v :=
  (bind_of_ok h.settle _).trans h.drop

/-- To abort a claim at once restores the bytes if and only if it listed nothing but unrendered
pixels. -/
theorem Settles.bytes_eq_iff {v : Shared} (hs : s.map.grid.Sized) (hn : s.map.bounds.Normal)
    (hc : take roi s = .ok c t) (h : c.Settles false t v) :
    v.map.bytes = s.map.bytes ↔
      ∀ p ∈ s.map.bounds, c.Lists p → s.map.grid.get? p = some .unrendered := by
  have hmark : CoverageMap.Marked c.work.rects .unrendered s.map v.map :=
    (marked_of_take hs hc).again h.marked
  rw [CoverageMap.bytes_eq_iff hmark.bounds hn hmark.sized hs]
  exact hmark.get?_eq_iff

end Claim

namespace World

variable {κ : Type} [DecidableEq κ] {w w' : World κ} {c : Claim} {t : Shared} {roi : Rect}

/-- **A claim is settled exactly, whatever has happened to the map since it was taken.** It goes
through, marks what it lists in the bounds that it finds there, and leaves all else alone; the
drop that follows finds it settled. Aborted at once, it restores the bytes of the map if and only
if all that it listed in the bounds was unrendered. -/
theorem settled_as_taken (hw : w.Reached) (hb : w.site.shared.map.bounds.Normal)
    (hroi : roi.InRange) (hc : Claim.take roi w.site.shared = .ok c t)
    (hrun : Relation.ReflTransGen Moves { w with site := { w.site with shared := t } } w') :
    (∃ v, c.complete w'.site.shared = .ok () v ∧ c.Settles true w'.site.shared v) ∧
    (∃ v, c.abort w'.site.shared = .ok () v ∧ c.Settles false w'.site.shared v) ∧
    ∃ v, c.abort t = .ok () v ∧
      (v.map.bytes = w.site.shared.map.bytes ↔
        ∀ p ∈ w.site.shared.map.bounds, c.Lists p →
          w.site.shared.map.grid.get? p = some .unrendered) := by
  have hall := hw.all stable_sound
  have hs : w.site.shared.map.grid.Sound := hall.1
  have hmark := Claim.marked_of_take hs.1 hc
  obtain ⟨n, harea⟩ := Claim.area_of_workList hs hb hroi (Claim.take_eq_ok hc).2.1
  have htaken : ({ w with site := { w.site with shared := t } } : World κ).All CoverageMap.Sound :=
    ⟨hmark.sound hs, hall.2⟩
  have hsized : w'.site.shared.map.grid.Sized := (htaken.of_run stable_sound hrun).1.1
  refine ⟨?_, ?_, ?_⟩
  · obtain ⟨v, hv⟩ := Claim.exists_settles harea hsized true
    exact ⟨v, hv.complete, hv⟩
  · obtain ⟨v, hv⟩ := Claim.exists_settles harea hsized false
    exact ⟨v, hv.abort, hv⟩
  · obtain ⟨v, hv⟩ := Claim.exists_settles harea hmark.sized false
    exact ⟨v, hv.abort, hv.bytes_eq_iff hs.1 hb hc⟩

/-- A new map is shared, and beside it there is one that takes no reservations. -/
def meeting : World Bool where
  site := Site.fresh
  maps := ⟨[(true, Site.fresh.shared.map), (false, .blank ⟨2, 2, 6, 6⟩ .single)]⟩

theorem meeting_reached : meeting.Reached := by
  have h : meeting.maps.Session :=
    .step (c := .create false ⟨2, 2, 6, 6⟩ .single)
      (.step (c := .create true ⟨0, 0, 4, 4⟩ {}) .empty (show Rect.InRange _ by decide) trivial
        nofun)
      (show Rect.InRange _ by decide) trivial nofun
  have hm : meeting.maps.get? true = some meeting.site.shared.map := rfl
  exact .share h hm rfl

/-- The two maps are swapped while a claim is held. What it lists in the bounds of the new one is
settled there, although that one takes no reservations. -/
theorem settled_as_taken_swapped :
    ∃ (w' : World Bool) (c : Claim) (t : Shared), meeting.Reached ∧
      meeting.site.shared.map.bounds.Normal ∧ Rect.InRange ⟨1, 1, 9, 9⟩ ∧
      Claim.take ⟨1, 1, 9, 9⟩ meeting.site.shared = .ok c t ∧
      Relation.ReflTransGen Moves { meeting with site := { meeting.site with shared := t } } w' ∧
      w'.site.shared.map.config.reservations = false ∧
      (∃ v, c.complete w'.site.shared = .ok () v ∧
        v.map.grid.get? ⟨5, 5⟩ = some .available) ∧
      ∃ v, c.abort t = .ok () v ∧ v.map.bytes = meeting.site.shared.map.bytes := by
  have hroi : Rect.InRange ⟨1, 1, 9, 9⟩ := by decide
  have hb : meeting.site.shared.map.bounds.Normal := by decide
  have hblank : meeting.site.Blank := Site.fresh_blank
  obtain ⟨c, t, hc, hwork, _⟩ := Claim.take_of_claimable (hblank.working hb).claimable hroi
  have hlists : c.Lists ⟨5, 5⟩ := by
    have hw : meeting.site.shared.map.workList .trimap ⟨1, 1, 9, 9⟩ =
        .ok ⟨[⟨4, 1, 9, 4⟩, ⟨1, 4, 9, 9⟩, ⟨1, 1, 4, 4⟩], false⟩ := by cbv
    rw [hw] at hwork
    rw [Claim.Lists, ← Except.ok.inj hwork]
    decide
  let w : World Bool := { meeting with site := { meeting.site with shared := t } }
  have hget : ((Atlas.run (.swap true false)).left (w.inHand true)).get? true =
      some (t.map.swap (.blank ⟨2, 2, 6, 6⟩ .single)).1 := rfl
  have hsurvived : Atlas.Command.Survived (.swap true false) (w.inHand true) := by
    intro name bounds heq
    cases heq
  have hrun := Relation.ReflTransGen.single
    (Moves.edit (c := .swap true false) trivial trivial hsurvived hget)
  obtain ⟨⟨v, hv, hsettled⟩, _, v', hv', hbytes⟩ :=
    settled_as_taken meeting_reached hb hroi hc hrun
  refine ⟨_, c, t, meeting_reached, hb, hroi, hc, hrun, rfl, ⟨v, hv, ?_⟩, v', hv', ?_⟩
  · exact hsettled.marked.of_mem (show ⟨5, 5⟩ ∈ (⟨2, 2, 6, 6⟩ : Rect) by decide) hlists
  · exact hbytes.mpr fun p hp _ => hblank.unrendered p hp

end World

end PixelCoverage
