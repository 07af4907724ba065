import PixelCoverage.Rect.Basic

/-!
# Texts of a rectangle

Records and errors show a rectangle in the brief form, faults in the full form. Both give
the edges as they are, columns before rows.
-/

namespace PixelCoverage.Rect

/-- The brief form, such as `[0,8)x[2,4)`. -/
def brief (r : Rect) : String :=
  s!"[{r.x0},{r.x1})x[{r.y0},{r.y1})"

/-- The full form, such as `PixelRect([0, 8) × [2, 4))`. -/
def full (r : Rect) : String :=
  s!"PixelRect([{r.x0}, {r.x1}) × [{r.y0}, {r.y1}))"

end PixelCoverage.Rect
