import PixelCoverage.Canonical
import PixelCoverage.Proofs.BoundingBox

/-!
# What the operations on rectangles mean

A rectangle is four edges in any order, and its operations compare edges. What they mean is said
by pixels. Most of it holds of any edges: containment, intersection and the question whether two
rectangles meet are read off pixels also where an operand is inverted.

Two things go beyond pixels, and there the order of the edges matters.

* Two rectangles without a pixel need not be equal. That an intersection does not depend on
  order and grouping is an equation between edges, and it holds because an inverted pair collapses
  onto its lower edge, which is the same in every grouping. A hull hands an empty operand over, so
  of two empty ones it keeps the second, and is commutative only if one has a pixel.
* An area is the product of two distances, and counts pixels only if the edges are in order.
  All constructors see to that, and so does an intersection. The geometry of canonical
  rectangles has no part in it: its edges go through the same constructor as all others.
-/

namespace PixelCoverage.Rect

variable {a b c r : Rect}

/-! ## Intersections -/

theorem inter_comm (a b : Rect) : a ∩ b = b ∩ a := by
  rw [inter_def, inter_def, Int.max_comm a.x0, Int.max_comm a.y0, Int.min_comm a.x1,
    Int.min_comm a.y1]

/-- An edge that has been raised to `low` before need not be, if it is raised further later. -/
private theorem max_min_max {low high u v : Int} (h : low ≤ high) :
    max high (min (max low u) v) = max high (min u v) := by
  omega

/-- The edges of three rectangles in one. -/
theorem inter_inter_eq (a b c : Rect) : (a ∩ b) ∩ c =
    ofEdges (max (max a.x0 b.x0) c.x0) (max (max a.y0 b.y0) c.y0) (min (min a.x1 b.x1) c.x1)
      (min (min a.y1 b.y1) c.y1) := by
  simp only [inter_def, ofEdges, max_min_max (Int.le_max_left _ _)]

theorem inter_assoc (a b c : Rect) : (a ∩ b) ∩ c = a ∩ (b ∩ c) := by
  rw [inter_comm a (b ∩ c), inter_inter_eq, inter_inter_eq, Int.max_assoc, Int.max_assoc,
    Int.min_assoc, Int.min_assoc, Int.max_comm a.x0, Int.max_comm a.y0, Int.min_comm a.x1,
    Int.min_comm a.y1]

/-! ## Hulls -/

theorem subset_hull_left (a b : Rect) : a ⊆ a.hull b :=
  subset_iff.mpr fun _ => mem_hull_of_mem_left

theorem subset_hull_right (a b : Rect) : b ⊆ a.hull b :=
  subset_iff.mpr fun _ => mem_hull_of_mem_right

theorem hull_of_isEmpty (ha : a.IsEmpty) : a.hull b = b := if_pos ha

/-- Both hulls are the smallest box of the same pixels, and if there are any, they have one box. -/
theorem hull_comm (h : ¬ a.IsEmpty ∨ ¬ b.IsEmpty) : a.hull b = b.hull a := by
  have hab := (isBox_self a).hull (isBox_self b)
  have hba := ((isBox_self b).hull (isBox_self a)).congr fun p => or_comm
  refine hab.unique hba ?_
  rw [not_isEmpty_iff_exists_mem]
  rcases h with ha | hb
  · obtain ⟨p, hp⟩ := not_isEmpty_iff_exists_mem.mp ha
    exact ⟨p, mem_hull_of_mem_left hp⟩
  · obtain ⟨p, hp⟩ := not_isEmpty_iff_exists_mem.mp hb
    exact ⟨p, mem_hull_of_mem_right hp⟩

theorem hull_comm_iff : a.hull b = b.hull a ↔ a = b ∨ ¬ a.IsEmpty ∨ ¬ b.IsEmpty := by
  constructor
  · intro heq
    by_cases ha : a.IsEmpty
    · by_cases hb : b.IsEmpty
      · rw [hull_of_isEmpty ha, hull_of_isEmpty hb] at heq
        exact Or.inl heq.symm
      · exact Or.inr (Or.inr hb)
    · exact Or.inr (Or.inl ha)
  · intro h
    rcases h with rfl | h
    · rfl
    · exact hull_comm h

/-! ## Areas -/

/-- A rectangle that comes from a constructor, with whatever geometry, or from an intersection. -/
inductive Made : Rect → Prop where
  | zero : Made zero
  | ofEdges (x0 y0 x1 y1 : Int) : Made (ofEdges x0 y0 x1 y1)
  | ofSize (x y : Int) (width height : Nat) : Made (ofSize x y width height)
  | enclosing (q : CanonicalRect) (geometry : CanonicalRect.Geometry) : Made (enclosing q geometry)
  | ofCanonical {q : CanonicalRect} {level : Nat} {aspect : Float}
      {geometry : CanonicalRect.Geometry} {r : Rect}
      (h : ofCanonical q level aspect geometry = .ok r) : Made r
  | inter (a b : Rect) : Made (a ∩ b)

theorem normal_enclosing (q : CanonicalRect) (geometry : CanonicalRect.Geometry) :
    (enclosing q geometry).Normal := normal_ofEdges ..

theorem Made.normal (h : Made r) : r.Normal := by
  cases h with
  | zero => decide
  | ofEdges => exact normal_ofEdges ..
  | ofSize => exact normal_ofEdges ..
  | enclosing q geometry => exact normal_enclosing q geometry
  | ofCanonical h =>
    obtain ⟨image, rfl⟩ := exists_enclosing_of_ofCanonical h
    exact normal_enclosing image _
  | inter a b => exact normal_inter a b

/-! ## All laws together -/

/-- What the operations on three rectangles mean, whatever the order of their edges. -/
structure Laws (a b c : Rect) : Prop where
  empty : a.IsEmpty ↔ ∀ p, p ∉ a
  subset : b ⊆ a ↔ ∀ p ∈ b, p ∈ a
  inter : ∀ p, p ∈ a ∩ b ↔ p ∈ a ∧ p ∈ b
  meets : a.Meets b ↔ ∃ p, p ∈ a ∧ p ∈ b
  comm : a ∩ b = b ∩ a
  assoc : (a ∩ b) ∩ c = a ∩ (b ∩ c)
  /-- Two different rectangles without a pixel have two hulls. -/
  hull_comm : a.hull b = b.hull a ↔ a = b ∨ ¬ a.IsEmpty ∨ ¬ b.IsEmpty
  hull_left : a ⊆ a.hull b
  hull_right : b ⊆ a.hull b
  hull_least : ∀ s : Rect, a ⊆ s → b ⊆ s → a.hull b ⊆ s

/-- **The operations mean what they say on pixels.** The area of a rectangle is the number of its
pixels if it has been made by a constructor or an intersection, and it fits into 64 bits. -/
theorem operations_exact (a b c : Rect) :
    Laws a b c ∧ (∀ r, Made r → r.pixels.encard = r.area) ∧ ∀ r, InRange r → r.area ≤ maxCount := by
  refine ⟨?_, fun r hr => encard_pixels hr.normal, fun r hr => area_le_maxCount hr⟩
  exact
    { empty := isEmpty_iff_forall_not_mem
      subset := subset_iff
      inter := fun p => mem_inter
      meets := meets_iff
      comm := inter_comm a b
      assoc := inter_assoc a b c
      hull_comm := hull_comm_iff
      hull_left := subset_hull_left a b
      hull_right := subset_hull_right a b
      hull_least := fun s ha hb => hull_subset ha hb }

/-- One operand is inverted, and has an area but no pixel. What it leaves of the other is empty,
and counted as such. -/
theorem operations_exact_inverted :
    Laws ⟨5, 0, 2, 4⟩ ⟨0, 0, 9, 3⟩ ⟨1, -2, 6, 2⟩ ∧
      (⟨5, 0, 2, 4⟩ : Rect) ∩ ⟨0, 0, 9, 3⟩ = ⟨5, 0, 5, 3⟩ ∧ Made ⟨5, 0, 5, 3⟩ ∧
      (pixels ⟨5, 0, 5, 3⟩).encard = 0 ∧
      area ⟨5, 0, 2, 4⟩ = 12 ∧ (∀ p, p ∉ (⟨5, 0, 2, 4⟩ : Rect)) ∧
      hull ⟨5, 0, 2, 4⟩ ⟨0, 0, 9, 3⟩ = ⟨0, 0, 9, 3⟩ ∧
      hull ⟨0, 0, 9, 3⟩ ⟨5, 0, 2, 4⟩ = ⟨0, 0, 9, 3⟩ := by
  obtain ⟨hlaws, hareas, _⟩ := operations_exact ⟨5, 0, 2, 4⟩ ⟨0, 0, 9, 3⟩ ⟨1, -2, 6, 2⟩
  have hinter : (⟨5, 0, 2, 4⟩ : Rect) ∩ ⟨0, 0, 9, 3⟩ = ⟨5, 0, 5, 3⟩ := by decide
  have hmade : Made ⟨5, 0, 5, 3⟩ := hinter ▸ Made.inter ⟨5, 0, 2, 4⟩ ⟨0, 0, 9, 3⟩
  have hhull : hull ⟨5, 0, 2, 4⟩ ⟨0, 0, 9, 3⟩ = ⟨0, 0, 9, 3⟩ := by decide
  have hcomm := hlaws.hull_comm.mpr (Or.inr (Or.inr (by decide)))
  exact ⟨hlaws, hinter, hmade, hareas _ hmade, by decide, hlaws.empty.mp (by decide), hhull,
    hcomm ▸ hhull⟩

end PixelCoverage.Rect
