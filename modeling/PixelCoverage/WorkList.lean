import PixelCoverage.Peel
import PixelCoverage.Rect.Bands

/-!
# What is left to compute in a region

A work list names the rectangles to compute, in a fixed order: the bands of the region
outside the bounds, then the strips of the uncovered box, then its residual. Without the
strips, the uncovered box is listed as it is. Together with the list goes a flag, set when
some of the region is in the hands of other workers.

An empty list with the flag set is no reason to call the region finished.
-/

namespace PixelCoverage

/-- Rectangles to compute. -/
structure WorkList where
  /-- The rectangles, in the order in which they were found. -/
  rects : List Rect := []
  /-- Pixels reserved by other workers were met. -/
  reservedElsewhere : Bool := false
deriving DecidableEq, Repr

namespace WorkList

/-- The number of pixels to compute. -/
def area (w : WorkList) : Except Fault Nat :=
  w.rects.foldlM (fun total r => addCounts total r.area) 0

/-- The smallest rectangle around all of them. -/
def boundingBox (w : WorkList) : Rect :=
  w.rects.foldl Rect.hull .zero

end WorkList

namespace Grid

/-- The work inside the bounds: the strips and the residual of the uncovered box of
`inside`, or that box alone. -/
def workInside (g : Grid) (m : Mode) (decomposeBorders : Bool) (inside : Rect) :
    Except Fault WorkList := do
  if inside.IsEmpty then
    return {}
  let box ← g.uncoveredBox m inside
  if box.rect.IsEmpty then
    return ⟨[], box.reserved⟩
  if decomposeBorders then
    let d ← g.peel m box.rect
    return ⟨d.work, box.reserved || d.reservedElsewhere⟩
  return ⟨[box.rect], box.reserved⟩

/-- All work in a region, which may reach outside the bounds. -/
def workList (g : Grid) (m : Mode) (decomposeBorders : Bool) (roi : Rect) :
    Except Fault WorkList := do
  let inside ← g.workInside m decomposeBorders (roi ∩ g.bounds)
  return { inside with rects := roi.outside g.bounds ++ inside.rects }

end Grid

end PixelCoverage
