import PixelCoverage.Proofs.Area

/-!
# Edges that meet mean a tiling

Whether the strips and the interior of a decomposition tile its box is checked by comparing
edges, sixteen pairs of them, and no pixel is looked at. Here the pixels follow from the edges,
for any decomposition that anybody may write down, as long as each part has its edges in order.

`Decomposition.Tiles.pairwise` and `Decomposition.Tiles.mem_bbox_iff` give the two halves: no two
parts overlap, and together they are the box. So the pixels of the box are counted once by
counting those of each part, and that is the identity of the areas. The sum cannot overflow
in any order, because no part of it exceeds the area of one rectangle with coordinates of
32 bits.
-/

namespace PixelCoverage.Decomposition

variable {d : Decomposition}

/-- The box takes the order of its edges from the parts. -/
theorem Tiles.normal_bbox (h : d.Tiles) (hn : ∀ r ∈ d.parts, r.Normal) : d.bbox.Normal := by
  obtain ⟨hb, ht, hl, hr, hi⟩ := forall_mem_parts.mp hn
  obtain ⟨⟨hby0, hbx0, hbx1, hby1⟩, ⟨hty1, htx0, htx1, hty0⟩, _⟩ := h
  simp only [Rect.Normal] at *
  omega

/-- Together, the parts have the pixels of the box. -/
theorem Tiles.pixelsOf_parts (h : d.Tiles) (hn : ∀ r ∈ d.parts, r.Normal) :
    Rect.pixelsOf d.parts = d.bbox.pixels := by
  ext p
  exact (h.mem_bbox_iff hn).symm

theorem Tiles.sum_area (h : d.Tiles) (hn : ∀ r ∈ d.parts, r.Normal) :
    (d.parts.map Rect.area).sum = d.bbox.area := by
  have hparts := Rect.encard_pixelsOf hn (h.pairwise hn)
  rw [h.pixelsOf_parts hn, Rect.encard_pixels (h.normal_bbox hn)] at hparts
  exact_mod_cast hparts.symm

/-- The areas of the parts can be added up, in whatever order that is done. -/
theorem Tiles.foldlM_area (h : d.Tiles) (hn : ∀ r ∈ d.parts, r.Normal) (hr : d.bbox.InRange)
    {l : List Rect} (hl : l.Perm d.parts) :
    l.foldlM (fun total r => addCounts total r.area) 0 = .ok d.bbox.area := by
  have hsum : (l.map Rect.area).sum = d.bbox.area := by
    rw [(hl.map Rect.area).sum_eq, h.sum_area hn]
  have hfits : 0 + (l.map Rect.area).sum ≤ maxCount := by
    rw [Nat.zero_add, hsum]
    exact Rect.area_le_maxCount hr
  rw [WorkList.foldlM_addCounts hfits, Nat.zero_add, hsum]

/-- **The tiling check is sound.** What passes it covers every pixel of the box by exactly one
part and no other pixel by any, and the areas add up. -/
theorem tiles_partition (hr : d.bbox.InRange) (hn : ∀ r ∈ d.parts, r.Normal) (h : d.Tiles) :
    (∀ p ∈ d.bbox, d.parts.countP (p ∈ ·) = 1) ∧ (∀ p ∉ d.bbox, ∀ r ∈ d.parts, p ∉ r) ∧
      (d.parts.map Rect.area).sum = d.bbox.area ∧
      ∀ l : List Rect, l.Perm d.parts →
        l.foldlM (fun total r => addCounts total r.area) 0 = .ok d.bbox.area := by
  refine ⟨fun p hp => ?_, fun p hp r hmem hpr => ?_, h.sum_area hn, fun l hl => ?_⟩
  · rw [h.countP_mem hn, if_pos hp]
  · exact hp ((h.mem_bbox_iff hn).mpr ⟨r, hmem, hpr⟩)
  · exact h.foldlM_area hn hr hl

/-- All pixels that there are, cut around one column of the lower half. The top strip is empty. -/
def wide : Decomposition where
  bbox := ⟨-2147483648, -2147483648, 2147483647, 2147483647⟩
  bottom := ⟨-2147483648, -2147483648, 2147483647, -7⟩
  top := ⟨-2147483648, 2147483647, 2147483647, 2147483647⟩
  left := ⟨-2147483648, -7, 3, 2147483647⟩
  right := ⟨4, -7, 2147483647, 2147483647⟩
  interior := ⟨3, -7, 4, 2147483647⟩
  residual := ⟨3, 0, 4, 5⟩
  reservedElsewhere := true

theorem tiles_partition_wide :
    wide.bbox.InRange ∧ (∀ r ∈ wide.parts, r.Normal) ∧ wide.Tiles ∧
      (∀ p ∈ wide.bbox, wide.parts.countP (p ∈ ·) = 1) ∧
      (∀ p ∉ wide.bbox, ∀ r ∈ wide.parts, p ∉ r) ∧
      (wide.parts.map Rect.area).sum = 18446744065119617025 ∧
      wide.parts.reverse.foldlM (fun total r => addCounts total r.area) 0 =
        .ok 18446744065119617025 := by
  have hr : wide.bbox.InRange := by decide
  have hn : ∀ r ∈ wide.parts, r.Normal := by decide
  have h : wide.Tiles := by decide
  obtain ⟨hone, hnone, hsum, hfold⟩ := tiles_partition hr hn h
  have harea : wide.bbox.area = 18446744065119617025 := by decide
  rw [harea] at hsum
  refine ⟨hr, hn, h, hone, hnone, hsum, ?_⟩
  rw [hfold _ wide.parts.reverse_perm, harea]

end PixelCoverage.Decomposition
