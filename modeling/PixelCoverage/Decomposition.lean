import PixelCoverage.Rect.Text

/-!
# A box cut into strips and an interior

```text
TTTTTTTTTTTTTT
LXXXXXXXXXXRRR
LXXXXXXXXXXRRR
BBBBBBBBBBBBBB
```

The bottom and the top strip run along the full width of the box, the left and the right
one along the height of the interior `X`. The residual is the part of the interior that is
left to compute. This file holds the shape alone; `PixelCoverage.Peel` finds it.
-/

namespace PixelCoverage

/-- A box, the four strips along its edges, and what they enclose. -/
structure Decomposition where
  bbox : Rect
  bottom : Rect
  top : Rect
  left : Rect
  right : Rect
  interior : Rect
  /-- The box of what is left to compute in the interior. -/
  residual : Rect
  /-- Pixels reserved by other workers were met. -/
  reservedElsewhere : Bool
deriving DecidableEq, Repr

namespace Decomposition

def strips (d : Decomposition) : List Rect := [d.bottom, d.top, d.left, d.right]

/-- The strips and the interior meet edge to edge and end where the box ends. -/
def Tiles (d : Decomposition) : Prop :=
  (d.bottom.y0 = d.bbox.y0 ∧ d.bottom.x0 = d.bbox.x0 ∧
    d.bottom.x1 = d.bbox.x1 ∧ d.bottom.y1 = d.interior.y0) ∧
  (d.top.y1 = d.bbox.y1 ∧ d.top.x0 = d.bbox.x0 ∧
    d.top.x1 = d.bbox.x1 ∧ d.top.y0 = d.interior.y1) ∧
  (d.left.y0 = d.interior.y0 ∧ d.left.y1 = d.interior.y1 ∧
    d.left.x0 = d.bbox.x0 ∧ d.left.x1 = d.interior.x0) ∧
  (d.right.y0 = d.interior.y0 ∧ d.right.y1 = d.interior.y1 ∧
    d.right.x0 = d.interior.x1 ∧ d.right.x1 = d.bbox.x1)

instance (d : Decomposition) : Decidable d.Tiles :=
  inferInstanceAs (Decidable ((_ ∧ _) ∧ (_ ∧ _) ∧ (_ ∧ _) ∧ (_ ∧ _)))

/-- The rectangles to compute: the strips, then the residual, without the empty ones. -/
def work (d : Decomposition) : List Rect :=
  (d.strips ++ [d.residual]).filter fun r => ¬ r.IsEmpty

/-- All fields, as a fault shows them. -/
def full (d : Decomposition) : String :=
  s!"Decomposition \x7b bbox: {d.bbox.full}, bottom: {d.bottom.full}, top: {d.top.full}, " ++
  s!"left: {d.left.full}, right: {d.right.full}, interior: {d.interior.full}, " ++
  s!"residual: {d.residual.full}, reserved_elsewhere: {d.reservedElsewhere} \x7d"

end Decomposition

end PixelCoverage
