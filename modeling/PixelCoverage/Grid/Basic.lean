import PixelCoverage.Fault
import PixelCoverage.PixelState

/-!
# A grid of pixel states

A grid covers its bounds with one cell per pixel, row after row from the bottom up and each
row from left to right. There are three ways to look at it. A point is looked up and is
`none` outside the bounds. Part of a row is one run of neighbouring cells. Part of a column
is a walk through the cells with the width as its stride. Rows and columns are only given
out inside the bounds; asking for more is a fault.

The number of cells ought to be the number of pixels. `checked` is the grid that is known
to be so.
-/

namespace PixelCoverage

/-- The pixel states of a rectangle, row by row. -/
structure Grid where
  /-- The rectangle that the grid covers. -/
  bounds : Rect
  /-- The states, row by row from the bottom left. -/
  cells : Array PixelState
deriving DecidableEq, Repr

namespace Grid

/-- There is one cell for each pixel. -/
def Sized (g : Grid) : Prop := g.cells.size = g.bounds.area

instance (g : Grid) : Decidable g.Sized :=
  inferInstanceAs (Decidable (_ = _))

/-- The grid over `bounds` with nothing rendered, if a buffer can hold it. -/
def blank (bounds : Rect) : Except Fault Grid :=
  if bounds.area ≤ maxCells then .ok ⟨bounds, Array.replicate bounds.area .unrendered⟩
  else .error .capacityOverflow

/-- The grid itself, if it has one cell for each pixel. -/
def checked (g : Grid) : Except Fault Grid :=
  if g.Sized then .ok g else .error (.cellCount g.cells.size g.bounds.area)

/-- The number of cells before the one of column `x` in row `y`. -/
def offset (g : Grid) (x y : Int) : Nat :=
  (y - g.bounds.y0).natAbs * g.bounds.width + (x - g.bounds.x0).natAbs

/-- The state of a pixel, or `none` outside the bounds. -/
def get? (g : Grid) (p : Pixel) : Option PixelState :=
  if p ∈ g.bounds then g.cells[g.offset p.x p.y]? else none

/-- The columns from `x0` to `x1` of row `y` lie in the bounds. -/
def HasRow (g : Grid) (y x0 x1 : Int) : Prop :=
  g.bounds.y0 ≤ y ∧ y < g.bounds.y1 ∧ g.bounds.x0 ≤ x0 ∧ x1 ≤ g.bounds.x1 ∧ x0 ≤ x1

instance (g : Grid) (y x0 x1 : Int) : Decidable (g.HasRow y x0 x1) :=
  inferInstanceAs (Decidable (_ ∧ _ ∧ _ ∧ _ ∧ _))

/-- The rows from `y0` to `y1` of column `x` lie in the bounds. -/
def HasColumn (g : Grid) (x y0 y1 : Int) : Prop :=
  g.bounds.x0 ≤ x ∧ x < g.bounds.x1 ∧ g.bounds.y0 ≤ y0 ∧ y1 ≤ g.bounds.y1 ∧ y0 ≤ y1

instance (g : Grid) (x y0 y1 : Int) : Decidable (g.HasColumn x y0 y1) :=
  inferInstanceAs (Decidable (_ ∧ _ ∧ _ ∧ _ ∧ _))

/-- The states of row `y` from column `x0` up to `x1`, left to right. -/
def row (g : Grid) (y x0 x1 : Int) : Except Fault (List PixelState) :=
  if g.HasRow y x0 x1 then
    let first := g.offset x0 y
    .ok (g.cells.extract first (first + (x1 - x0).natAbs)).toList
  else .error (.rowOutside y x0 x1 g.bounds)

/-- The states of column `x` from row `y0` up to `y1`, bottom to top. -/
def column (g : Grid) (x y0 y1 : Int) : Except Fault (List PixelState) :=
  if g.HasColumn x y0 y1 then
    let first := g.offset x y0
    .ok ((List.range (y1 - y0).natAbs).filterMap fun i => g.cells[first + i * g.bounds.width]?)
  else .error (.columnOutside x y0 y1 g.bounds)

theorem get?_of_mem {g : Grid} {p : Pixel} (h : p ∈ g.bounds) :
    g.get? p = g.cells[g.offset p.x p.y]? := if_pos h

theorem get?_of_not_mem {g : Grid} {p : Pixel} (h : p ∉ g.bounds) : g.get? p = none := if_neg h

theorem checked_of_sized {g : Grid} (h : g.Sized) : g.checked = .ok g := if_pos h

end Grid

end PixelCoverage
