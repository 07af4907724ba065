import PixelCoverage.Grid.Lemmas

/-!
# The smallest box of some pixels

Everything a query answers is about two sets of pixels: those that *need* work and
those that *block* a strip because they do not. This file names the two sets, and says
what it is for a rectangle to be the smallest around a set, without any search: it holds
the set, and every rectangle that holds the set contains it.

The box of no pixels is empty by that rule, since the empty rectangle holds no pixels as
well as any other does.
-/

namespace PixelCoverage

namespace Rect

/-- `r` is the smallest rectangle that holds every pixel with `P`. -/
structure IsBox (r : Rect) (P : Pixel → Prop) : Prop where
  /-- No pixel is left out. -/
  holds : ∀ p, P p → p ∈ r
  /-- Whatever leaves none out is no smaller. -/
  least : ∀ s : Rect, (∀ p, P p → p ∈ s) → r ⊆ s

/-- The edges are in order and lie between those of `b`. Containment alone says nothing
about the edges of an empty rectangle, and the lines of those are asked for too. -/
structure Within (r b : Rect) : Prop where
  left : b.x0 ≤ r.x0
  columns : r.x0 ≤ r.x1
  right : r.x1 ≤ b.x1
  bottom : b.y0 ≤ r.y0
  rows : r.y0 ≤ r.y1
  top : r.y1 ≤ b.y1

/-! ## Boxes -/

theorem isBox_of_isEmpty {r : Rect} {P : Pixel → Prop} (he : r.IsEmpty) (hn : ∀ p, ¬ P p) :
    r.IsBox P where
  holds p hp := absurd hp (hn p)
  least _ _ := Or.inl he

/-- The box of a set is empty exactly when the set is. -/
theorem IsBox.isEmpty_iff {r : Rect} {P : Pixel → Prop} (h : r.IsBox P) :
    r.IsEmpty ↔ ∀ p, ¬ P p := by
  refine ⟨?_, ?_⟩
  · intro he p hp
    exact isEmpty_iff_forall_not_mem.mp he p (h.holds p hp)
  · intro hn
    rw [isEmpty_iff_forall_not_mem]
    intro p hp
    exact not_mem_zero p (mem_of_subset (h.least zero fun q hq => absurd hq (hn q)) hp)

/-! ## Edges in order -/

theorem Within.trans {r s t : Rect} (h : r.Within s) (h' : s.Within t) : r.Within t :=
  ⟨Int.le_trans h'.left h.left, h.columns, Int.le_trans h.right h'.right,
    Int.le_trans h'.bottom h.bottom, h.rows, Int.le_trans h.top h'.top⟩

theorem Within.subset {r s : Rect} (h : r.Within s) : r ⊆ s :=
  Or.inr ⟨h.left, h.right, h.bottom, h.top⟩

theorem Within.mem {r s : Rect} (h : r.Within s) {p : Pixel} (hp : p ∈ r) : p ∈ s :=
  mem_of_subset h.subset hp

theorem Within.normal {r s : Rect} (h : r.Within s) : s.Normal :=
  ⟨Int.le_trans h.left (Int.le_trans h.columns h.right),
    Int.le_trans h.bottom (Int.le_trans h.rows h.top)⟩

theorem Within.inRange {r s : Rect} (h : r.Within s) (hs : s.InRange) : r.InRange := by
  obtain ⟨h1, h2, h3, h4, h5, h6⟩ := h
  simp only [InRange, IsCoord] at *
  omega

theorem subset_trans {r s t : Rect} (h : r ⊆ s) (h' : s ⊆ t) : r ⊆ t :=
  subset_iff.mpr fun _ hp => mem_of_subset h' (mem_of_subset h hp)

/-- A part of `b` that has a pixel lies between the edges of `b`. -/
theorem within_of_subset {r b : Rect} (h : r ⊆ b) (hr : ¬ r.IsEmpty) : r.Within b := by
  rcases h with he | ⟨h1, h2, h3, h4⟩
  · exact absurd he hr
  · have hn := normal_of_not_isEmpty hr
    exact ⟨h1, hn.1, h2, h3, hn.2, h4⟩

end Rect

/-! ## The two sets of pixels -/

namespace Grid

/-- A pixel of the grid that is work. -/
def Needs (g : Grid) (m : Mode) (p : Pixel) : Prop := ∃ s, g.get? p = some s ∧ m.Needs s

/-- A pixel of the grid that is none. -/
def Blocks (g : Grid) (m : Mode) (p : Pixel) : Prop := ∃ s, g.get? p = some s ∧ ¬ m.Needs s

theorem not_needs_and_blocks {g : Grid} {m : Mode} {p : Pixel} (h : g.Needs m p) :
    ¬ g.Blocks m p := by
  intro hblocks
  obtain ⟨s, hs, hb⟩ := hblocks
  obtain ⟨t, ht, hn⟩ := h
  rw [hs] at ht
  exact hb (Option.some.inj ht ▸ hn)

/-- In a sized grid a pixel of the bounds is in one of the two sets. -/
theorem needs_or_blocks {g : Grid} (hg : g.Sized) {m : Mode} {p : Pixel} (hp : p ∈ g.bounds) :
    g.Needs m p ∨ g.Blocks m p := by
  obtain ⟨s, hs⟩ := exists_get?_of_mem hg hp
  by_cases hn : m.Needs s
  · exact Or.inl ⟨s, hs, hn⟩
  · exact Or.inr ⟨s, hs, hn⟩

/-- The lines of a rectangle inside the bounds can be asked for, also if they are empty. -/
theorem hasRow_of_within {g : Grid} {r : Rect} (h : r.Within g.bounds) {y : Int} (h0 : r.y0 ≤ y)
    (h1 : y < r.y1) : g.HasRow y r.x0 r.x1 :=
  ⟨Int.le_trans h.bottom h0, Int.lt_of_lt_of_le h1 h.top, h.left, h.right, h.columns⟩

theorem hasColumn_of_within {g : Grid} {r : Rect} (h : r.Within g.bounds) {x : Int}
    (h0 : r.x0 ≤ x) (h1 : x < r.x1) : g.HasColumn x r.y0 r.y1 :=
  ⟨Int.le_trans h.left h0, Int.lt_of_lt_of_le h1 h.right, h.bottom, h.top, h.rows⟩

end Grid

end PixelCoverage
