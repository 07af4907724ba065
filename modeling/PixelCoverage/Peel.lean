import PixelCoverage.Trim

/-!
# Peeling strips off a box

The strips of a box are the widest along its edges that hold nothing but work. They are
peeled in the order bottom, top, left, right, each off what the ones before it have left,
so the left and the right strip are as high as the interior. What remains in the interior
is boxed once more.
-/

namespace PixelCoverage.Grid

/-- What the left and the right pass leave of `inner`; untouched if it has no row. -/
def peelSides (g : Grid) (m : Mode) (inner : Rect) : Except Fault Trimmed := do
  if inner.height = 0 then
    return ⟨inner, false⟩
  let left ← g.trimLeft .pending m inner
  let right ← g.trimRight .pending m left.rect
  return ⟨right.rect, left.reserved || right.reserved⟩

/-- Cuts a box inside the bounds into strips and an interior. -/
def peel (g : Grid) (m : Mode) (bbox : Rect) : Except Fault Decomposition := do
  let below ← g.trimBottom .pending m bbox
  let above ← g.trimTop .pending m below.rect
  let sides ← g.peelSides m above.rect
  let interior := sides.rect
  -- each strip ends where the pass that found it came to rest
  let d : Decomposition :=
    { bbox
      bottom := .ofEdges bbox.x0 bbox.y0 bbox.x1 below.rect.y0
      top := .ofEdges bbox.x0 above.rect.y1 bbox.x1 bbox.y1
      left := .ofEdges bbox.x0 interior.y0 interior.x0 interior.y1
      right := .ofEdges interior.x1 interior.y0 bbox.x1 interior.y1
      interior
      residual := .zero
      reservedElsewhere := false }
  unless d.Tiles do
    throw (.untiled d)
  -- the interior begins and ends with lines that are not all work, and may hold none
  let rest ← g.uncoveredBox m interior
  return { d with
    residual := rest.rect
    reservedElsewhere := below.reserved || above.reserved || sides.reserved || rest.reserved }

end PixelCoverage.Grid
