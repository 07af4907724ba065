import PixelCoverage.Census
import PixelCoverage.CoverageMap.Basic
import PixelCoverage.WorkList

/-!
# Questions to a map

A scheduler asks three questions about a region of interest: what is the box of the work in
it, what rectangles make up the work, and how does the box come apart into strips. All three
are narrowed by the restriction first. The box and its strips only know the pixels inside
the bounds; the rectangles also list what sticks out, since that was never rendered.

The census is for people. It is clipped to the bounds and does not heed the restriction.
-/

namespace PixelCoverage.CoverageMap

variable (m : CoverageMap)

/-- What the restriction leaves of a region. -/
def narrowed (roi : Rect) : Rect :=
  match m.restriction with
  | none => roi
  | some r => roi ∩ r

/-- The part of a region that queries look at inside the bounds. -/
def inside (roi : Rect) : Rect := m.narrowed roi ∩ m.bounds

/-- The smallest box of the work in a region, inside the bounds. The flag tells whether
others hold pixels of the region outside the box. -/
def uncoveredBox (mode : Mode) (roi : Rect) : Except Fault Trimmed := do
  if (m.inside roi).IsEmpty then
    return ⟨.zero, false⟩
  (← m.view).uncoveredBox mode (m.inside roi)

/-- Disjoint rectangles that hold all work in a region. -/
def workList (mode : Mode) (roi : Rect) : Except Fault WorkList := do
  if (m.narrowed roi).IsEmpty then
    return {}
  (← m.view).workList mode m.config.decomposeBorders (m.narrowed roi)

/-- The uncovered box of a region cut into strips, or `none` if nothing is uncovered. -/
def decompose (mode : Mode) (roi : Rect) : Except Fault (Option Decomposition) := do
  if (m.inside roi).IsEmpty then
    return none
  let g ← m.view
  let box ← g.uncoveredBox mode (m.inside roi)
  if box.rect.IsEmpty then
    return none
  let d ← g.peel mode box.rect
  return some { d with reservedElsewhere := d.reservedElsewhere || box.reserved }

/-- Where in a region the pixels are that are not available. -/
def census (roi : Rect) : Except Fault Census := do
  (← m.view).census (roi ∩ m.bounds)

end PixelCoverage.CoverageMap
