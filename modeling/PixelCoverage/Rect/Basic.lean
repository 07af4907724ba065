import PixelCoverage.Coord

/-!
# Pixels and half-open rectangles

A rectangle is given by four edges and stands for the pixels `[x0, x1) × [y0, y1)`,
`y0` being the bottom row. Its meaning is its membership relation; every operation
below is described by what it does to that.

The edges of a rectangle may stand in any order, since callers may write any four
numbers. The constructors `ofEdges` and `ofSize` put them in order, and so does an
intersection. An inverted rectangle holds no pixel, but it is not forgotten: its
`width` and `height` are the distances between its edges, and `hull` hands it back
unchanged when the other operand is empty.
-/

namespace PixelCoverage

/-- A pixel, by its column and its row. -/
structure Pixel where
  x : Int
  y : Int
deriving DecidableEq, Repr

/-- Four edges, of which `x0` and `y0` are inclusive and `x1` and `y1` exclusive. -/
structure Rect where
  x0 : Int
  y0 : Int
  x1 : Int
  y1 : Int
deriving DecidableEq, Repr

namespace Rect

instance : Membership Pixel Rect where
  mem r p := r.x0 ≤ p.x ∧ p.x < r.x1 ∧ r.y0 ≤ p.y ∧ p.y < r.y1

theorem mem_iff {p : Pixel} {r : Rect} :
    p ∈ r ↔ r.x0 ≤ p.x ∧ p.x < r.x1 ∧ r.y0 ≤ p.y ∧ p.y < r.y1 := Iff.rfl

instance (p : Pixel) (r : Rect) : Decidable (p ∈ r) :=
  decidable_of_iff _ mem_iff.symm

/-- The empty rectangle at the origin. -/
def zero : Rect := ⟨0, 0, 0, 0⟩

/-- The rectangle with these edges, where an inverted pair collapses onto its minimum. -/
def ofEdges (x0 y0 x1 y1 : Int) : Rect := ⟨x0, y0, max x0 x1, max y0 y1⟩

/-- The rectangle of this size whose bottom left corner is `(x, y)`; edges past the
greatest coordinate stop there. -/
def ofSize (x y : Int) (width height : Nat) : Rect :=
  ofEdges x y (min (x + width) maxCoord) (min (y + height) maxCoord)

/-- The rectangle whose one pixel is `p`. -/
def ofPixel (p : Pixel) : Rect := ofEdges p.x p.y (p.x + 1) (p.y + 1)

/-- The edges are in order. -/
def Normal (r : Rect) : Prop := r.x0 ≤ r.x1 ∧ r.y0 ≤ r.y1

instance (r : Rect) : Decidable r.Normal :=
  inferInstanceAs (Decidable (r.x0 ≤ r.x1 ∧ r.y0 ≤ r.y1))

/-- All four edges are coordinates. -/
def InRange (r : Rect) : Prop := IsCoord r.x0 ∧ IsCoord r.y0 ∧ IsCoord r.x1 ∧ IsCoord r.y1

instance (r : Rect) : Decidable r.InRange :=
  inferInstanceAs (Decidable (_ ∧ _ ∧ _ ∧ _))

/-- The distance between the left and the right edge, whichever is first. -/
def width (r : Rect) : Nat := (r.x1 - r.x0).natAbs

def height (r : Rect) : Nat := (r.y1 - r.y0).natAbs

/-- The product of width and height: the number of pixels, when the edges are in order. -/
def area (r : Rect) : Nat := r.width * r.height

/-- The rectangle has no column or no row. -/
def IsEmpty (r : Rect) : Prop := r.x1 ≤ r.x0 ∨ r.y1 ≤ r.y0

instance (r : Rect) : Decidable r.IsEmpty :=
  inferInstanceAs (Decidable (r.x1 ≤ r.x0 ∨ r.y1 ≤ r.y0))

/-- Containment, read off the edges. An empty rectangle lies in every other. -/
instance : HasSubset Rect where
  Subset r s := r.IsEmpty ∨ s.x0 ≤ r.x0 ∧ r.x1 ≤ s.x1 ∧ s.y0 ≤ r.y0 ∧ r.y1 ≤ s.y1

theorem subset_def {r s : Rect} :
    r ⊆ s ↔ r.IsEmpty ∨ s.x0 ≤ r.x0 ∧ r.x1 ≤ s.x1 ∧ s.y0 ≤ r.y0 ∧ r.y1 ≤ s.y1 := Iff.rfl

instance (r s : Rect) : Decidable (r ⊆ s) :=
  decidable_of_iff _ subset_def.symm

instance : Inter Rect where
  inter r s := ofEdges (max r.x0 s.x0) (max r.y0 s.y0) (min r.x1 s.x1) (min r.y1 s.y1)

theorem inter_def (r s : Rect) :
    r ∩ s = ofEdges (max r.x0 s.x0) (max r.y0 s.y0) (min r.x1 s.x1) (min r.y1 s.y1) := rfl

/-- Two rectangles meet when their common part has a pixel. -/
def Meets (r s : Rect) : Prop := ¬ (r ∩ s).IsEmpty

instance (r s : Rect) : Decidable (r.Meets s) :=
  inferInstanceAs (Decidable (¬ _))

/-- The smallest rectangle around two, of which an empty one does not count. -/
def hull (r s : Rect) : Rect :=
  if r.IsEmpty then s
  else if s.IsEmpty then r
  else ofEdges (min r.x0 s.x0) (min r.y0 s.y0) (max r.x1 s.x1) (max r.y1 s.y1)

/-- The rows of a rectangle that has a pixel, from the bottom up; none if it is empty. -/
def rows (r : Rect) : List Int :=
  if r.IsEmpty then [] else (List.range r.height).map fun (i : Nat) => r.y0 + i

/-! ## Emptiness and order of the edges -/

theorem isEmpty_iff {r : Rect} : r.IsEmpty ↔ r.x1 ≤ r.x0 ∨ r.y1 ≤ r.y0 := Iff.rfl

/-- An empty rectangle is one without pixels. -/
theorem isEmpty_iff_forall_not_mem {r : Rect} : r.IsEmpty ↔ ∀ p, p ∉ r := by
  simp only [isEmpty_iff, mem_iff]
  constructor
  · intro h p
    omega
  · intro h
    have := h ⟨r.x0, r.y0⟩
    simp only at this
    omega

theorem not_isEmpty_iff_exists_mem {r : Rect} : ¬ r.IsEmpty ↔ ∃ p, p ∈ r := by
  simp only [isEmpty_iff_forall_not_mem, Classical.not_forall, Classical.not_not]

/-- A rectangle with a pixel has its edges in order. -/
theorem normal_of_not_isEmpty {r : Rect} (h : ¬ r.IsEmpty) : r.Normal := by
  simp only [isEmpty_iff, Normal] at *
  omega

theorem normal_ofEdges (x0 y0 x1 y1 : Int) : (ofEdges x0 y0 x1 y1).Normal := by
  simp only [ofEdges, Normal]
  omega

/-- Edges that are in order stay as they are. -/
theorem ofEdges_eq_of_le {x0 y0 x1 y1 : Int} (hx : x0 ≤ x1) (hy : y0 ≤ y1) :
    ofEdges x0 y0 x1 y1 = ⟨x0, y0, x1, y1⟩ := by
  simp only [ofEdges, Int.max_eq_right hx, Int.max_eq_right hy]

theorem normal_inter (r s : Rect) : (r ∩ s).Normal := normal_ofEdges ..

/-! ## Members of each operation -/

@[simp] theorem mem_ofEdges {p : Pixel} {x0 y0 x1 y1 : Int} :
    p ∈ ofEdges x0 y0 x1 y1 ↔ x0 ≤ p.x ∧ p.x < x1 ∧ y0 ≤ p.y ∧ p.y < y1 := by
  simp only [mem_iff, ofEdges]
  omega

@[simp] theorem mem_ofPixel {p q : Pixel} : p ∈ ofPixel q ↔ p = q := by
  obtain ⟨px, py⟩ := p
  obtain ⟨qx, qy⟩ := q
  simp only [ofPixel, mem_ofEdges, Pixel.mk.injEq]
  omega

@[simp] theorem not_mem_zero (p : Pixel) : p ∉ zero := by
  simp only [mem_iff, zero]
  omega

@[simp] theorem mem_inter {p : Pixel} {r s : Rect} : p ∈ r ∩ s ↔ p ∈ r ∧ p ∈ s := by
  rw [inter_def, mem_ofEdges, mem_iff, mem_iff]
  omega

theorem subset_of_isEmpty {r s : Rect} (h : r.IsEmpty) : r ⊆ s := subset_def.mpr (.inl h)

/-- Containment of edges is containment of pixels. -/
theorem subset_iff {r s : Rect} : r ⊆ s ↔ ∀ p, p ∈ r → p ∈ s := by
  simp only [subset_def, isEmpty_iff, mem_iff]
  constructor
  · intro h p
    omega
  · intro h
    have low := h ⟨r.x0, r.y0⟩
    have high := h ⟨r.x1 - 1, r.y1 - 1⟩
    simp only at low high
    omega

theorem mem_of_subset {p : Pixel} {r s : Rect} (h : r ⊆ s) (hp : p ∈ r) : p ∈ s :=
  subset_iff.1 h p hp

theorem inter_subset_left (r s : Rect) : r ∩ s ⊆ r :=
  subset_iff.2 fun _ hp => (mem_inter.1 hp).1

theorem inter_subset_right (r s : Rect) : r ∩ s ⊆ s :=
  subset_iff.2 fun _ hp => (mem_inter.1 hp).2

theorem mem_hull_of_mem_left {p : Pixel} {r s : Rect} (h : p ∈ r) : p ∈ r.hull s := by
  simp only [hull, isEmpty_iff, mem_iff] at *
  split
  · omega
  · split
    · omega
    · simp only [ofEdges]
      omega

theorem mem_hull_of_mem_right {p : Pixel} {r s : Rect} (h : p ∈ s) : p ∈ r.hull s := by
  simp only [hull, isEmpty_iff, mem_iff] at *
  split
  · omega
  · split
    · omega
    · simp only [ofEdges]
      omega

/-- The hull is the least: what contains both rectangles contains their hull. -/
theorem hull_subset {r s t : Rect} (hr : r ⊆ t) (hs : s ⊆ t) : r.hull s ⊆ t := by
  simp only [hull]
  split
  · exact hs
  · split
    · exact hr
    · simp only [subset_def, isEmpty_iff, ofEdges] at *
      omega

theorem mem_rows {y : Int} {r : Rect} : y ∈ r.rows ↔ ¬ r.IsEmpty ∧ r.y0 ≤ y ∧ y < r.y1 := by
  unfold rows
  split
  · simp [*]
  · rename_i h
    simp only [List.mem_map, List.mem_range, height, isEmpty_iff] at *
    constructor
    · rintro ⟨i, hi, rfl⟩
      omega
    · intro hy
      exact ⟨(y - r.y0).toNat, by omega, by omega⟩

end Rect

end PixelCoverage
