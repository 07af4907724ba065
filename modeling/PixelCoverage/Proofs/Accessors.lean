import PixelCoverage.Proofs.Area
import PixelCoverage.Proofs.History

/-!
# Three ways to one cell

A grid is looked at in three ways. A point is looked up, part of a row is cut out as a run of
cells, and part of a column is walked through with the width as the stride. Each counts its
cells in its own way, from distances between edges, and each checks by itself what it is asked
for.

All three come to the same cell, the one of the pixel. Going right by one pixel goes on by one
cell, going up by one row goes on by one width, and that is how a row and a column count. What
is not refused has a cell for every pixel that is read, also if it has no pixel at all and lies
at the far edge. The number of a cell never leaves 64 bits.
-/

namespace PixelCoverage

namespace Grid

variable {g : Grid} {p : Pixel} {x y x0 x1 y0 y1 : Int}

/-- A sized grid has a cell for each pixel of its bounds, and finds the pixel's state in it. -/
theorem offset_lt_size (hg : g.Sized) (hp : p ∈ g.bounds) : g.offset p.x p.y < g.cells.size :=
  Nat.lt_of_lt_of_eq (offset_lt_area hp) hg.symm

/-- The number of a cell fits into 64 bits, also past the last row and column. -/
theorem offset_le_maxCount (hb : g.bounds.InRange) (hx : g.bounds.x0 ≤ x) (hx' : x ≤ g.bounds.x1)
    (hy : g.bounds.y0 ≤ y) (hy' : y ≤ g.bounds.y1) : g.offset x y ≤ maxCount := by
  obtain ⟨⟨a0, a1⟩, ⟨b0, b1⟩, ⟨c0, c1⟩, ⟨d0, d1⟩⟩ := hb
  unfold minCoord at a0 b0 c0 d0
  unfold maxCoord at a1 b1 c1 d1
  have hwidth : g.bounds.width ≤ 4294967295 := by unfold Rect.width; omega
  have hrow : (y - g.bounds.y0).natAbs ≤ 4294967295 := by omega
  have hcolumn : (x - g.bounds.x0).natAbs ≤ 4294967295 := by omega
  calc g.offset x y
      ≤ 4294967295 * 4294967295 + 4294967295 :=
        Nat.add_le_add (Nat.mul_le_mul hrow hwidth) hcolumn
    _ ≤ maxCount := by decide

/-! ## Lines -/

/--
How part of a line is read. It is refused unless `inside` holds. Otherwise it has `span`
states: the one at the place `i` is that of the pixel `pixel i`, and it is found in the cell
`first + i * stride` of the buffer.
-/
structure ReadsLine (g : Grid) (answer : Except Fault (List PixelState)) (inside : Prop)
    (span : Int) (pixel : Nat → Pixel) (first stride : Nat) : Prop where
  refused_iff : (∃ f, answer = .error f) ↔ ¬ inside
  given : inside → ∃ states, answer = .ok states ∧ (states.length : Int) = span ∧
    ∀ i (hi : i < states.length), g.get? (pixel i) = some states[i] ∧
      ∃ hcell : first + i * stride < g.cells.size, g.cells[first + i * stride] = states[i]
  /-- The number of the first cell is none that 64 bits cannot hold. -/
  counted : inside → first ≤ maxCount

section Lines

variable {answer : Except Fault (List PixelState)} {inside : Prop} {span : Int}
  {pixel : Nat → Pixel} {first stride : Nat}

theorem readsLine_of_error {f : Fault} (h : answer = .error f) (hout : ¬ inside) :
    g.ReadsLine answer inside span pixel first stride where
  refused_iff := iff_of_true ⟨f, h⟩ hout
  given hin := absurd hin hout
  counted hin := absurd hin hout

/-- A line whose states are those of its pixels is read from their cells, if these are counted
as the pixels are. -/
theorem readsLine_of_ok {states : List PixelState} (h : answer = .ok states) (hin : inside)
    (hspan : 0 ≤ span) (hlen : states.length = span.natAbs)
    (hstate : ∀ i < span.natAbs, states[i]? = g.get? (pixel i))
    (hmem : ∀ i < span.natAbs, pixel i ∈ g.bounds)
    (hcell : ∀ i < span.natAbs, g.offset (pixel i).x (pixel i).y = first + i * stride)
    (hfirst : first ≤ maxCount) : g.ReadsLine answer inside span pixel first stride where
  refused_iff := by
    rw [h]
    exact iff_of_false (fun hf => by simp at hf) (fun hout => hout hin)
  given _ := by
    refine ⟨states, h, by omega, fun i hi => ?_⟩
    have hi' : i < span.natAbs := hlen ▸ hi
    have hget : g.get? (pixel i) = some states[i] := by
      rw [← hstate i hi', List.getElem?_eq_getElem hi]
    refine ⟨hget, ?_⟩
    rw [get?_of_mem (hmem i hi'), hcell i hi', Array.getElem?_eq_some_iff] at hget
    exact hget
  counted _ := hfirst

end Lines

/-- The part of a row is read from a run of cells. -/
theorem row_readsLine (hg : g.Sized) (hb : g.bounds.InRange) (y x0 x1 : Int) :
    g.ReadsLine (g.row y x0 x1) (g.HasRow y x0 x1) (x1 - x0) (fun i => ⟨x0 + i, y⟩)
      (g.offset x0 y) 1 := by
  by_cases hrow : g.HasRow y x0 x1
  · obtain ⟨states, hstates, hlen, hstate⟩ := row_of_hasRow hg hrow
    have hin := hrow
    obtain ⟨bottom, top, left, right, order⟩ := hrow
    refine readsLine_of_ok hstates hin (by omega) hlen hstate ?_ ?_ ?_
    · intro i hi
      rw [Rect.mem_iff]
      simp only
      omega
    · intro i _
      rw [offset_add_right left, Nat.mul_one]
    · exact offset_le_maxCount hb left (by omega) bottom (by omega)
  · exact readsLine_of_error (if_neg hrow) hrow

/-- The part of a column is read from cells that are a width apart. -/
theorem column_readsLine (hg : g.Sized) (hb : g.bounds.InRange) (x y0 y1 : Int) :
    g.ReadsLine (g.column x y0 y1) (g.HasColumn x y0 y1) (y1 - y0) (fun i => ⟨x, y0 + i⟩)
      (g.offset x y0) g.bounds.width := by
  by_cases hcolumn : g.HasColumn x y0 y1
  · obtain ⟨states, hstates, hlen, hstate⟩ := column_of_hasColumn hg hcolumn
    have hin := hcolumn
    obtain ⟨left, right, bottom, top, order⟩ := hcolumn
    refine readsLine_of_ok hstates hin (by omega) hlen hstate ?_ ?_ ?_
    · intro i hi
      rw [Rect.mem_iff]
      simp only
      omega
    · intro i _
      exact offset_add_up bottom i
    · exact offset_le_maxCount hb left (by omega) bottom (by omega)
  · exact readsLine_of_error (if_neg hcolumn) hcolumn

/-- A row is cut out of the buffer, so even an empty one may not begin past the end. -/
theorem offset_add_length_le_size (hg : g.Sized) {states : List PixelState}
    (h : g.row y x0 x1 = .ok states) : g.offset x0 y + states.length ≤ g.cells.size := by
  by_cases hrow : g.HasRow y x0 x1
  · obtain ⟨states', hstates, hlen, _⟩ := row_of_hasRow hg hrow
    rw [h] at hstates
    cases hstates
    rw [hlen]
    exact offset_add_le_size hg hrow
  · rw [row, if_neg hrow] at h
    cases h

/-! ## The accessors of a grid -/

/-- What the three accessors of a grid over `b` give, and from where in the buffer. -/
structure Accessors (g : Grid) (b : Rect) : Prop where
  point_iff : ∀ p, (g.get? p).isSome ↔ p ∈ b
  point_cell : ∀ p ∈ b, g.offset p.x p.y < g.cells.size ∧
    g.get? p = g.cells[g.offset p.x p.y]?
  row : ∀ y x0 x1, g.ReadsLine (g.row y x0 x1)
    (b.y0 ≤ y ∧ y < b.y1 ∧ b.x0 ≤ x0 ∧ x1 ≤ b.x1 ∧ x0 ≤ x1) (x1 - x0) (fun i => ⟨x0 + i, y⟩)
    (g.offset x0 y) 1
  /-- The run of cells of a row ends within the buffer. -/
  run : ∀ y x0 x1 states, g.row y x0 x1 = .ok states →
    g.offset x0 y + states.length ≤ g.cells.size
  column : ∀ x y0 y1, g.ReadsLine (g.column x y0 y1)
    (b.x0 ≤ x ∧ x < b.x1 ∧ b.y0 ≤ y0 ∧ y1 ≤ b.y1 ∧ y0 ≤ y1) (y1 - y0) (fun i => ⟨x, y0 + i⟩)
    (g.offset x y0) b.width

end Grid

namespace CoverageMap

variable {m : CoverageMap}

/-- **The three accessors agree.** -/
theorem accessors_agree (hm : m.Reachable) :
    ∃ g, m.view = .ok g ∧ g.bounds = m.bounds ∧ g.Accessors m.bounds := by
  obtain ⟨hs, hb⟩ := hm.sound
  refine ⟨m.grid, view_of_sound hm.sound, rfl, ?_⟩
  exact
    { point_iff := fun p => Grid.isSome_get?_iff hs
      point_cell := fun p hp => ⟨Grid.offset_lt_size hs hp, Grid.get?_of_mem hp⟩
      row := fun y x0 x1 => Grid.row_readsLine hs hb y x0 x1
      run := fun y x0 x1 states hstates => Grid.offset_add_length_le_size hs hstates
      column := fun x y0 y1 => Grid.column_readsLine hs hb x y0 y1 }

/-- A row and a column through the same pixels, an empty row at the far edge, and what lies past
the edge. -/
theorem accessors_agree_mixed :
    mixed.Reachable ∧ ∃ g, mixed.view = .ok g ∧ g.Accessors ⟨0, 0, 4, 4⟩ ∧
      g.row 1 1 3 = .ok [.available, .reserved] ∧
      g.column 2 1 4 = .ok [.reserved, .available, .unrendered] ∧
      g.get? ⟨2, 1⟩ = some .reserved ∧ g.row 3 4 4 = .ok [] ∧
      (∃ f, g.row 3 4 5 = .error f) ∧ (∃ f, g.column 4 0 0 = .error f) ∧
      ¬ (g.get? ⟨4, 3⟩).isSome := by
  obtain ⟨g, hview, _, hacc⟩ := accessors_agree mixed_reachable
  have hgrid : mixed.view = .ok mixed.grid := view_of_sound mixed_reachable.sound
  rw [hgrid] at hview
  cases hview
  refine ⟨mixed_reachable, _, hgrid, hacc, by decide, by decide, by decide, by decide, ?_, ?_, ?_⟩
  · exact (hacc.row 3 4 5).refused_iff.mpr (by decide)
  · exact (hacc.column 4 0 0).refused_iff.mpr (by decide)
  · rw [hacc.point_iff]
    decide

end CoverageMap

end PixelCoverage
