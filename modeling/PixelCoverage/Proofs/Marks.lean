import PixelCoverage.Proofs.Claims

/-!
# What is written, pixel by pixel

Whoever changes pixels of a shared map gives one state to some rectangles, as far as they lie
in the bounds. `CoverageMap.Marked` says what that leaves, all of it: the marked pixels have
the state, every other pixel has kept its own, and nothing else of the map has changed.

A grid that has its cells takes every mark, and a map with reservations takes every state. So
on such a map a claim can always be taken, and it marks what it lists. However it ends, it
marks the same pixels again, whether or not its records can be made.
-/

namespace PixelCoverage

open Update

/-! ## Marks -/

namespace CoverageMap

variable {m n : CoverageMap} {rects : List Rect} {st k : PixelState} {p : Pixel}

/-- Rectangles without a pixel in the bounds mark nothing. -/
theorem marked_of_apart (hm : m.grid.Sized) (h : ∀ r ∈ rects, ¬ r.Meets m.bounds) :
    Marked rects st m m := by
  refine ⟨rfl, rfl, rfl, hm, fun p => (if_neg fun hp => ?_).symm⟩
  obtain ⟨hin, r, hr, hpr⟩ := hp
  exact Rect.not_meets_iff.mp (h r hr) p hpr hin

/-- It matters which rectangles are marked, and not in which order. -/
theorem Marked.unique {o : CoverageMap} {rects' : List Rect} (hb : m.bounds.Normal)
    (h : Marked rects st m n) (h' : Marked rects' st m o) (hmem : ∀ r, r ∈ rects ↔ r ∈ rects') :
    n = o := by
  have hgrid : n.grid = o.grid := by
    refine Grid.ext_get? (h.bounds.trans h'.bounds.symm) ?_ h.sized h'.sized fun p => ?_
    · have hbounds : o.grid.bounds = m.bounds := h'.bounds
      rwa [hbounds]
    · rw [h.get?, h'.get?]
      simp only [hmem]
  obtain ⟨g, restriction, config⟩ := n
  obtain ⟨g', restriction', config'⟩ := o
  obtain rfl : g = g' := hgrid
  obtain rfl : restriction = restriction' := h.restriction.trans h'.restriction.symm
  obtain rfl : config = config' := h.config.trans h'.config.symm
  rfl

theorem Marked.sound (h : Marked rects st m n) (hm : m.grid.Sound) : n.grid.Sound :=
  ⟨h.sized, show n.bounds.InRange from h.bounds ▸ hm.2⟩

/-- A map on which claims can be taken: its cells are all there, and it takes reservations. -/
structure Claimable (m : CoverageMap) : Prop where
  sound : m.grid.Sound
  normal : m.bounds.Normal
  reservations : m.config.reservations = true

theorem Claimable.accepts (hm : m.Claimable) (st : PixelState) : m.config.Accepts st :=
  fun _ => hm.reservations

theorem Claimable.of_marked (hm : m.Claimable) (h : Marked rects st m n) : n.Claimable where
  sound := h.sound hm.sound
  normal := h.bounds ▸ hm.normal
  reservations := h.config ▸ hm.reservations

/-- A pixel of the bounds that is not unrendered is available or reserved. -/
theorem Claimable.reserved_or_available (hm : m.Claimable) (hp : p ∈ m.bounds)
    (hn : m.grid.get? p ≠ some .unrendered) :
    m.grid.get? p = some .reserved ∨ m.grid.get? p = some .available := by
  obtain ⟨s, hs⟩ := Grid.exists_get?_of_mem hm.sound.1 hp
  cases s with
  | unrendered => exact absurd hs hn
  | available => exact Or.inr hs
  | reserved => exact Or.inl hs

end CoverageMap

/-! ## What writes keep -/

section Keeps

variable {P : CoverageMap → Prop}

namespace Shared

theorem keeps_onMap {α : Type} {u : Update CoverageMap α} (hu : Keeps P u) :
    Keeps (fun s => P s.map) (onMap u) :=
  Keeps.onPart hu (fun _ h => h) fun _ _ _ h => h

/-- Records are no part of the map. -/
theorem keeps_map_record (level : Log.Level) (text : CoverageMap → Except Fault String) :
    Keeps (fun s => P s.map) (record level text) := by
  intro s h
  have hmap : ((record level text).left s).map = s.map := keeps_record level text s.map s rfl
  rw [hmap]
  exact h

theorem keeps_writeClipped (hw : ∀ rect st, Keeps P (CoverageMap.write rect st))
    (rects : List Rect) (st : PixelState) : Keeps (fun s => P s.map) (writeClipped rects st) :=
  Keeps.get_bind fun _ _ => Keeps.forM _ fun _ _ =>
    Keeps.ite (fun _ => Keeps.pure _) fun _ => keeps_onMap (hw _ _)

end Shared

namespace Claim

theorem keeps_take (hw : ∀ rect st, Keeps P (CoverageMap.write rect st)) (roi : Rect) :
    Keeps (fun s => P s.map) (take roi) :=
  Keeps.bind (Keeps.query _) fun _ => Keeps.bind (Shared.keeps_writeClipped hw _ _) fun _ =>
    Keeps.bind (Shared.keeps_map_record _ _) fun _ => Keeps.pure _

theorem keeps_settle (hw : ∀ rect st, Keeps P (CoverageMap.write rect st)) (c : Claim)
    (rendered : Bool) : Keeps (fun s => P s.map) (c.settle rendered) :=
  Keeps.ite (fun _ => Keeps.pure _) fun _ =>
    Keeps.bind (Shared.keeps_writeClipped hw _ _) fun _ =>
      Keeps.bind (Shared.keeps_map_record _ _) fun _ => Keeps.pure _

theorem keeps_drop (hw : ∀ rect st, Keeps P (CoverageMap.write rect st)) (c : Claim) :
    Keeps (fun s => P s.map) c.drop :=
  Keeps.ite (fun _ => Keeps.pure _) fun _ =>
    Keeps.bind (Shared.keeps_map_record _ _) fun _ =>
      Keeps.bind (keeps_settle hw c false) fun _ => Shared.keeps_map_record _ _

end Claim

end Keeps

/-! ## Whoever writes, marks -/

namespace Shared

variable {s : Shared} {st : PixelState}

theorem marked_of_writeClipped (rects : List Rect) (hs : s.map.grid.Sized)
    (ha : s.map.config.Accepts st) :
    CoverageMap.Marked rects st s.map ((writeClipped rects st).left s).map := by
  obtain ⟨g, hw, hmark⟩ := writeClipped_of_accepts rects hs ha
  rw [left_of_ok hw]
  exact hmark

/-- A rectangle that does not lie in the bounds is not written at all. -/
theorem marked_of_write (rect : Rect) (hs : s.map.grid.Sized) (ha : s.map.config.Accepts st) :
    CoverageMap.Marked ([rect].filter (· ⊆ s.map.bounds)) st s.map
      ((onMap (CoverageMap.write rect st)).left s).map := by
  rw [onMap, left_onPart]
  by_cases hsub : rect ⊆ s.map.bounds
  · obtain ⟨g, hw, hb, hg, hget⟩ := CoverageMap.write_of_accepts hs hsub ha
    rw [left_of_ok hw, List.filter_singleton, decide_eq_true hsub, cond_true]
    refine ⟨rfl, rfl, hb, hg, fun p => ?_⟩
    rw [hget p]
    simp only [List.mem_singleton, exists_eq_left]
    congr 1
    exact propext (iff_and_self.mpr fun hp => Rect.mem_of_subset hsub hp)
  · have hno : ¬ (rect ⊆ s.map.bounds ∧ s.map.grid.Sized ∧ s.map.config.Accepts st) :=
      fun h => hsub h.1
    obtain ⟨f, hw⟩ := CoverageMap.write_of_refused hno
    rw [left_of_error hw, List.filter_singleton, decide_eq_false hsub, cond_false]
    exact CoverageMap.Marked.refl hs st

end Shared

namespace Claim

variable {c : Claim} {s : Shared}

/-- The claim lists the pixel for its worker to compute. -/
def Lists (c : Claim) (p : Pixel) : Prop := ∃ r ∈ c.work.rects, p ∈ r

instance (c : Claim) (p : Pixel) : Decidable (c.Lists p) :=
  inferInstanceAs (Decidable (∃ r ∈ c.work.rects, p ∈ r))

theorem marked_of_settle (c : Claim) (rendered : Bool) (hs : s.map.grid.Sized) :
    CoverageMap.Marked c.work.rects (if rendered then .available else .unrendered) s.map
      ((c.settle rendered).left s).map := by
  rw [map_left_settle]
  refine Shared.marked_of_writeClipped _ hs fun h => ?_
  cases rendered <;> exact absurd h (by simp)

theorem marked_of_complete (c : Claim) (hs : s.map.grid.Sized) :
    CoverageMap.Marked c.work.rects .available s.map (c.complete.left s).map := by
  rw [complete, left_settle_drop]
  exact marked_of_settle c true hs

theorem marked_of_abort (c : Claim) (hs : s.map.grid.Sized) :
    CoverageMap.Marked c.work.rects .unrendered s.map (c.abort.left s).map := by
  rw [abort, left_settle_drop]
  exact marked_of_settle c false hs

theorem marked_of_drop (hc : c.settled = false) (hs : s.map.grid.Sized) :
    CoverageMap.Marked c.work.rects .unrendered s.map (c.drop.left s).map := by
  refine left_drop hc fun t ht => ?_
  rw [← ht]
  exact marked_of_settle c false (ht ▸ hs)

/-- Whether or not the map takes reservations, what a claim lists in the bounds is reserved. -/
theorem marked_of_take {roi : Rect} {t : Shared} (hs : s.map.grid.Sized)
    (h : take roi s = .ok c t) : CoverageMap.Marked c.work.rects .reserved s.map t.map := by
  obtain ⟨_, _, hmap⟩ := take_eq_ok h
  rw [hmap]
  by_cases ha : s.map.config.Accepts .reserved
  · exact Shared.marked_of_writeClipped _ hs ha
  · -- the claim has been taken, so it lists nothing there
    have hapart : ∀ r ∈ c.work.rects, ¬ r.Meets s.map.bounds := by
      intro r hr hmeets
      obtain ⟨u, hu⟩ := written_of_take h
      rw [Shared.writeClipped_of_not_accepts ha ⟨r, hr, hmeets⟩] at hu
      cases hu
    rw [left_of_ok (Shared.writeClipped_of_apart _ hapart)]
    exact CoverageMap.marked_of_apart hs hapart

/-- A claim that can be counted can be settled, and is not dropped any more. -/
theorem settle_of_area {n : Nat} (rendered : Bool) (hs : s.map.grid.Sized)
    (ha : c.work.area = .ok n) :
    ∃ v, c.settle rendered s = .ok { c with settled := true } v ∧ v.maxLevel = s.maxLevel ∧
      CoverageMap.Marked c.work.rects (if rendered then .available else .unrendered)
        s.map v.map := by
  obtain ⟨v, hv, hlevel⟩ : ∃ v, c.settle rendered s = .ok { c with settled := true } v ∧
      v.maxLevel = s.maxLevel := by
    unfold settle
    by_cases hi : c.IsIdle
    · rw [if_pos hi]
      exact ⟨s, rfl, rfl⟩
    · have haccepts : s.map.config.Accepts (if rendered then .available else .unrendered) := by
        cases rendered <;> exact nofun
      obtain ⟨g, hw, _⟩ := Shared.writeClipped_of_accepts c.work.rects hs haccepts
      rw [if_neg hi, bind_of_ok hw]
      refine Shared.record_bind (P := fun r => ∃ v, r = .ok { c with settled := true } v ∧
        v.maxLevel = s.maxLevel) ?_ ?_
      · rw [ha]
        exact ⟨_, rfl⟩
      · exact fun log => ⟨_, rfl, rfl⟩
  exact ⟨v, hv, hlevel, left_of_ok hv ▸ marked_of_settle c rendered hs⟩

/-- **A claim can be taken of any region,** and reserves what it lists. -/
theorem take_of_claimable {roi : Rect} (hm : s.map.Claimable) (hroi : roi.InRange) :
    ∃ c t, take roi s = .ok c t ∧ s.map.workList .trimap roi = .ok c.work ∧
      CoverageMap.Marked c.work.rects .reserved s.map t.map := by
  obtain ⟨c, t, h⟩ := exists_take hm.sound hm.normal (hm.accepts _) hroi
  exact ⟨c, t, h, (take_eq_ok h).2.1, marked_of_take hm.sound.1 h⟩

end Claim

end PixelCoverage
