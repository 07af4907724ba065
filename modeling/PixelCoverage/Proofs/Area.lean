import Mathlib.Data.Finset.Prod
import Mathlib.Data.Set.Card
import PixelCoverage.CoverageMap.Basic
import PixelCoverage.Proofs.Strips
import PixelCoverage.WorkList

/-!
# Areas count pixels

The area of a work list is a sum of products of edge lengths, added up in 64 bits. Here it
is shown to be what it stands for: the number of the pixels listed. That takes rectangles
of which no two meet, and it is also why the sum cannot overflow, since all those pixels lie
in one region with coordinates of 32 bits.

The area is the number of the cells of a grid, too. So there is a pixel for each cell, and who
knows the state of every pixel knows the grid.
-/

namespace PixelCoverage

namespace Rect

variable {r s : Rect}

/-- The pixels of a rectangle. -/
def pixels (r : Rect) : Set Pixel := {p | p ∈ r}

/-- The pixels of some rectangles together. -/
def pixelsOf (l : List Rect) : Set Pixel := {p | ∃ r ∈ l, p ∈ r}

/-- The pixel so many columns and rows from the corner of a rectangle. -/
def pixelAt (r : Rect) : Nat × Nat ↪ Pixel where
  toFun q := ⟨r.x0 + q.1, r.y0 + q.2⟩
  inj' a b h := by
    obtain ⟨hx, hy⟩ := Pixel.mk.inj h
    exact Prod.ext (by omega) (by omega)

theorem pixelAt_apply (r : Rect) (q : Nat × Nat) : r.pixelAt q = ⟨r.x0 + q.1, r.y0 + q.2⟩ := rfl

/-- The same pixels, to be counted. -/
def toFinset (r : Rect) : Finset Pixel :=
  (Finset.range (r.x1 - r.x0).toNat ×ˢ Finset.range (r.y1 - r.y0).toNat).map r.pixelAt

@[simp] theorem mem_toFinset {p : Pixel} : p ∈ r.toFinset ↔ p ∈ r := by
  simp only [toFinset, mem_iff, Finset.mem_map, Finset.mem_product, Finset.mem_range,
    pixelAt_apply]
  refine ⟨fun h => ?_, fun h => ?_⟩
  · obtain ⟨q, ⟨hx, hy⟩, rfl⟩ := h
    simp only
    omega
  · refine ⟨((p.x - r.x0).toNat, (p.y - r.y0).toNat), ?_, ?_⟩
    · simp only
      omega
    · have hx : r.x0 + (p.x - r.x0).toNat = p.x := by omega
      have hy : r.y0 + (p.y - r.y0).toNat = p.y := by omega
      simp only [hx, hy]

theorem toFinset_of_isEmpty (h : r.IsEmpty) : r.toFinset = ∅ :=
  Finset.eq_empty_of_forall_notMem fun p hp =>
    isEmpty_iff_forall_not_mem.mp h p (mem_toFinset.mp hp)

theorem card_toFinset (h : r.Normal) : r.toFinset.card = r.area := by
  obtain ⟨hx, hy⟩ := h
  have hw : (r.x1 - r.x0).toNat = r.width := by unfold width; omega
  have hh : (r.y1 - r.y0).toNat = r.height := by unfold height; omega
  rw [toFinset, Finset.card_map, Finset.card_product, Finset.card_range, Finset.card_range, hw, hh,
    area]

/-- A rectangle with its edges in order has as many pixels as its area says. -/
theorem encard_pixels (h : r.Normal) : r.pixels.encard = r.area := by
  have hset : r.pixels = r.toFinset := Set.ext fun _ => mem_toFinset.symm
  rw [hset, Set.encard_coe_eq_coe_finsetCard, card_toFinset h]

theorem pixelsOf_cons (r : Rect) (l : List Rect) : pixelsOf (r :: l) = r.pixels ∪ pixelsOf l := by
  ext p
  simp only [pixelsOf, pixels, Set.mem_ofPred_eq, Set.mem_union, List.mem_cons, exists_eq_or_imp]

/-- **Areas of rectangles that do not meet add up to the number of their pixels.** -/
theorem encard_pixelsOf {l : List Rect} (hn : ∀ r ∈ l, r.Normal)
    (hp : l.Pairwise fun r s => ¬ r.Meets s) : (pixelsOf l).encard = (l.map area).sum := by
  induction l with
  | nil => simp [pixelsOf]
  | cons r l ih =>
    obtain ⟨hr, hl⟩ := List.pairwise_cons.mp hp
    obtain ⟨hrn, hln⟩ := List.forall_mem_cons.mp hn
    have hdisj : Disjoint r.pixels (pixelsOf l) := by
      rw [Set.disjoint_left]
      intro p hp hq
      obtain ⟨s, hs, hps⟩ := hq
      exact not_meets_iff.mp (hr s hs) p hp hps
    rw [pixelsOf_cons, Set.encard_union_eq hdisj, encard_pixels hrn, ih hln hl, List.map_cons,
      List.sum_cons, Nat.cast_add]

/-- Nothing that has pixels lies in an empty rectangle. -/
theorem eq_nil_of_isEmpty {l : List Rect} (hne : ∀ r ∈ l, ¬ r.IsEmpty) (hl : ∀ r ∈ l, r ⊆ s)
    (he : s.IsEmpty) : l = [] := by
  rw [List.eq_nil_iff_forall_not_mem]
  intro r hr
  obtain ⟨p, hp⟩ := not_isEmpty_iff_exists_mem.mp (hne r hr)
  exact isEmpty_iff_forall_not_mem.mp he p (mem_of_subset (hl r hr) hp)

/-- Rectangles that do not meet have no more area than what they lie in. -/
theorem sum_area_le {l : List Rect} (hne : ∀ r ∈ l, ¬ r.IsEmpty)
    (hp : l.Pairwise fun r s => ¬ r.Meets s) (hl : ∀ r ∈ l, r ⊆ s) :
    (l.map area).sum ≤ s.area := by
  by_cases he : s.IsEmpty
  · rw [eq_nil_of_isEmpty hne hl he]
    exact Nat.zero_le _
  · have hsub : pixelsOf l ⊆ s.pixels := by
      intro p hq
      obtain ⟨r, hr, hpr⟩ := hq
      exact mem_of_subset (hl r hr) hpr
    have h := Set.encard_le_encard hsub
    rw [encard_pixelsOf (fun r hr => normal_of_not_isEmpty (hne r hr)) hp,
      encard_pixels (normal_of_not_isEmpty he)] at h
    exact_mod_cast h

theorem area_le_of_within (h : r.Within s) : r.area ≤ s.area := by
  obtain ⟨h0, h1, h2, h3, h4, h5⟩ := h
  exact Nat.mul_le_mul (by unfold width; omega) (by unfold height; omega)

/-- The area of a rectangle with coordinates of 32 bits fits into 64. -/
theorem area_le_maxCount (h : r.InRange) : r.area ≤ maxCount := by
  obtain ⟨⟨a0, a1⟩, ⟨b0, b1⟩, ⟨c0, c1⟩, ⟨d0, d1⟩⟩ := h
  unfold minCoord at a0 b0 c0 d0
  unfold maxCoord at a1 b1 c1 d1
  have hw : r.width ≤ 4294967295 := by unfold width; omega
  have hh : r.height ≤ 4294967295 := by unfold height; omega
  exact Nat.le_trans (Nat.mul_le_mul hw hh) (by decide)

end Rect

namespace WorkList

/-- Counts that add up within 64 bits are added up. -/
theorem foldlM_addCounts {l : List Rect} {n : Nat} (h : n + (l.map Rect.area).sum ≤ maxCount) :
    l.foldlM (fun total r => addCounts total r.area) n = .ok (n + (l.map Rect.area).sum) := by
  induction l generalizing n with
  | nil => rfl
  | cons r l ih =>
    rw [List.map_cons, List.sum_cons, ← Nat.add_assoc] at h ⊢
    have hr : addCounts n r.area = .ok (n + r.area) :=
      addCounts_eq_ok_iff.mpr ⟨Nat.le_trans (Nat.le_add_right _ _) h, rfl⟩
    rw [List.foldlM_cons, hr]
    exact ih h

theorem area_of_sum_le {w : WorkList} (h : (w.rects.map Rect.area).sum ≤ maxCount) :
    w.area = .ok (w.rects.map Rect.area).sum := by
  have key := foldlM_addCounts (l := w.rects) (n := 0) (by rw [Nat.zero_add]; exact h)
  rw [Nat.zero_add] at key
  exact key

end WorkList

/-! ## Cells -/

namespace Grid

variable {g h : Grid}

/-- There are as many cells as pixels, and no two pixels share one. So there is a pixel for each
cell. -/
theorem exists_offset_eq (hn : g.bounds.Normal) {i : Nat} (hi : i < g.bounds.area) :
    ∃ p ∈ g.bounds, g.offset p.x p.y = i := by
  have hmaps : Set.MapsTo (fun p : Pixel => g.offset p.x p.y) g.bounds.toFinset
      (Finset.range g.bounds.area) := fun p hp =>
    Finset.mem_coe.mpr (Finset.mem_range.mpr (offset_lt_area (Rect.mem_toFinset.mp hp)))
  have hinj : Set.InjOn (fun p : Pixel => g.offset p.x p.y) g.bounds.toFinset :=
    fun p hp q hq heq => offset_inj (Rect.mem_toFinset.mp hp) (Rect.mem_toFinset.mp hq) heq
  have hcard : (Finset.range g.bounds.area).card ≤ g.bounds.toFinset.card := by
    rw [Finset.card_range, Rect.card_toFinset hn]
  obtain ⟨p, hp, heq⟩ := Finset.surjOn_of_injOn_of_card_le _ hmaps hinj hcard
    (Finset.mem_coe.mpr (Finset.mem_range.mpr hi))
  exact ⟨p, Rect.mem_toFinset.mp hp, heq⟩

/-- A grid with its cells is known by its pixels. -/
theorem ext_get? (hb : g.bounds = h.bounds) (hn : h.bounds.Normal) (hg : g.Sized) (hh : h.Sized)
    (hget : ∀ p, g.get? p = h.get? p) : g = h := by
  obtain ⟨b, cells⟩ := g
  obtain rfl : b = h.bounds := hb
  obtain ⟨b, cells'⟩ := h
  refine congrArg (Grid.mk b) (Array.ext_getElem? fun i => ?_)
  by_cases hi : i < b.area
  · obtain ⟨p, hp, rfl⟩ := exists_offset_eq (g := ⟨b, cells⟩) hn hi
    have hcell := hget p
    rw [get?_of_mem (g := ⟨b, cells⟩) hp, get?_of_mem (g := ⟨b, cells'⟩) hp] at hcell
    exact hcell
  · have hsize : cells.size = b.area := hg
    have hsize' : cells'.size = b.area := hh
    rw [Array.getElem?_eq_none (by omega), Array.getElem?_eq_none (by omega)]

end Grid

/-! ## Pixels in one state -/

namespace CoverageMap

variable {m : CoverageMap} {region : Rect} {st : PixelState} {p : Pixel}

/-- The pixels of a region in one state. -/
def pixelsIn (m : CoverageMap) (st : PixelState) (region : Rect) : Finset Pixel :=
  region.toFinset.filter fun p => m.grid.get? p = some st

@[simp] theorem mem_pixelsIn :
    p ∈ m.pixelsIn st region ↔ p ∈ region ∧ m.grid.get? p = some st := by
  rw [pixelsIn, Finset.mem_filter, Rect.mem_toFinset]

end CoverageMap

end PixelCoverage
