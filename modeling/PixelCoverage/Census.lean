import PixelCoverage.Counter
import PixelCoverage.Grid.Basic
import PixelCoverage.Rect.Text

/-!
# A census of a region

The census visits every pixel of a region and keeps the number and the smallest box of the
unrendered and of the reserved ones. It is exact and meant to be read by people; the
scheduler asks for a work list instead.

The column counter is stepped before each pixel is looked at and once more at the end of a
row. A region that ends at the greatest coordinate therefore runs out of columns.
-/

namespace PixelCoverage

/-- Where the pixels of a region are that are not available. -/
structure Census where
  region : Rect := .zero
  unrendered : Rect := .zero
  unrenderedCount : Nat := 0
  reserved : Rect := .zero
  reservedCount : Nat := 0
deriving DecidableEq, Repr

namespace Census

/-- Every pixel of the region is available. -/
def IsComplete (c : Census) : Prop := c.unrenderedCount = 0 ∧ c.reservedCount = 0

instance (c : Census) : Decidable c.IsComplete :=
  inferInstanceAs (Decidable (_ ∧ _))

/-- Enters a pixel. -/
def add (c : Census) (p : Pixel) : PixelState → Census
  | .unrendered =>
    { c with
      unrendered := c.unrendered.hull (.ofPixel p)
      unrenderedCount := c.unrenderedCount + 1 }
  | .reserved =>
    { c with
      reserved := c.reserved.hull (.ofPixel p)
      reservedCount := c.reservedCount + 1 }
  | .available => c

/-- Enters the pixels of row `y` from column `x` on. -/
def addRow (y x : Int) (c : Census) : List PixelState → Except Fault Census
  | [] => do
    let _ ← stepUp x
    return c
  | s :: line => do
    let next ← stepUp x
    addRow y next (c.add ⟨x, y⟩ s) line

/-- One line of text. -/
def text (c : Census) : String :=
  if c.IsComplete then s!"{c.region.brief} fully available"
  else
    let unrendered :=
      if c.unrenderedCount = 0 then ""
      else s!" {c.unrenderedCount} unrendered pixels in {c.unrendered.brief}"
    let reserved :=
      if c.reservedCount = 0 then ""
      else s!" {c.reservedCount} reserved pixels in {c.reserved.brief}"
    s!"{c.region.brief}:{unrendered}{reserved}"

end Census

/-- Visits every pixel of a region inside the bounds. -/
def Grid.census (g : Grid) (region : Rect) : Except Fault Census :=
  region.rows.foldlM (fun c y => do c.addRow y region.x0 (← g.row y region.x0 region.x1))
    { region }

end PixelCoverage
