import PixelCoverage.Rect.Basic

/-!
# What lies outside

`roi.outside bounds` cuts the part of a rectangle that sticks out of some bounds into at
most four bands. The bottom and the top band run along the full width; the left and the
right band only cover the rows between them, so no corner is listed twice.
-/

namespace PixelCoverage.Rect

/-- The bands of `roi` outside `bounds`, in the order left, bottom, right, top, without
the empty ones. -/
def outside (roi bounds : Rect) : List Rect :=
  if roi.IsEmpty then []
  else
    -- the rows that the two rectangles share, pressed into the rows of `roi`
    let low := min (max roi.y0 bounds.y0) roi.y1
    let high := max (min roi.y1 bounds.y1) low
    let bands :=
      [ofEdges roi.x0 low (min bounds.x0 roi.x1) high,
        ofEdges roi.x0 roi.y0 roi.x1 (min bounds.y0 roi.y1),
        ofEdges (max bounds.x1 roi.x0) low roi.x1 high,
        ofEdges roi.x0 (max bounds.y1 roi.y0) roi.x1 roi.y1]
    bands.filter fun band => ¬ band.IsEmpty

end PixelCoverage.Rect
