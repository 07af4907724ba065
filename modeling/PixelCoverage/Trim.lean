import PixelCoverage.Counter
import PixelCoverage.Grid.Basic
import PixelCoverage.LineScan

/-!
# Trimming a rectangle

A pass moves one edge of a rectangle inwards over every line that meets a criterion, and
comes to rest at the first that does not. The line at rest is scanned too, so its flag
counts. An edge is stepped like any coordinate; there are no more steps than lines between
the edge and the one opposite.

Four passes with the criterion `covered`, in the order bottom, top, left, right, leave the
uncovered box of a region. The same passes with `pending` find the strips of that box, in
`PixelCoverage.Peel`.
-/

namespace PixelCoverage

/-- Where a moving edge came to rest. -/
structure Sweep where
  edge : Int
  /-- A reservation mattered in some line that was scanned. -/
  reserved : Bool
deriving DecidableEq, Repr

namespace Sweep

/-- Moves a lower edge up over at most `lines` accepted lines. The line next to the edge has
the same coordinate. -/
def up (scan : Int → Except Fault LineScan) (lines : Nat) (edge : Int) : Except Fault Sweep :=
  match lines with
  | 0 => .ok ⟨edge, false⟩
  | lines + 1 => do
    let line ← scan edge
    if line.accepted then
      let rest ← up scan lines (← stepUp edge)
      return ⟨rest.edge, line.reserved || rest.reserved⟩
    else return ⟨edge, line.reserved⟩

/-- Moves an upper edge down over at most `lines` accepted lines. The line next to the edge
has the coordinate before it. -/
def down (scan : Int → Except Fault LineScan) (lines : Nat) (edge : Int) : Except Fault Sweep :=
  match lines with
  | 0 => .ok ⟨edge, false⟩
  | lines + 1 => do
    let next ← stepDown edge
    let line ← scan next
    if line.accepted then
      let rest ← down scan lines next
      return ⟨rest.edge, line.reserved || rest.reserved⟩
    else return ⟨edge, line.reserved⟩

end Sweep

/-- What passes have left of a rectangle, and whether a reservation mattered to any. -/
structure Trimmed where
  rect : Rect
  reserved : Bool
deriving DecidableEq, Repr

namespace Grid

variable (g : Grid) (c : Criterion) (m : Mode)

/-- Scans row `y`, as far as it lies in a rectangle. -/
def scanRow (r : Rect) (y : Int) : Except Fault LineScan :=
  (g.row y r.x0 r.x1).map (LineScan.run c m false)

def scanColumn (r : Rect) (x : Int) : Except Fault LineScan :=
  (g.column x r.y0 r.y1).map (LineScan.run c m false)

/-- Raises the bottom edge over accepted rows. -/
def trimBottom (r : Rect) : Except Fault Trimmed := do
  let s ← Sweep.up (g.scanRow c m r) (r.y1 - r.y0).toNat r.y0
  return ⟨.ofEdges r.x0 s.edge r.x1 r.y1, s.reserved⟩

def trimTop (r : Rect) : Except Fault Trimmed := do
  let s ← Sweep.down (g.scanRow c m r) (r.y1 - r.y0).toNat r.y1
  return ⟨.ofEdges r.x0 r.y0 r.x1 s.edge, s.reserved⟩

def trimLeft (r : Rect) : Except Fault Trimmed := do
  let s ← Sweep.up (g.scanColumn c m r) (r.x1 - r.x0).toNat r.x0
  return ⟨.ofEdges s.edge r.y0 r.x1 r.y1, s.reserved⟩

def trimRight (r : Rect) : Except Fault Trimmed := do
  let s ← Sweep.down (g.scanColumn c m r) (r.x1 - r.x0).toNat r.x1
  return ⟨.ofEdges r.x0 r.y0 s.edge r.y1, s.reserved⟩

/-- The smallest box of what needs work in a region inside the bounds. The columns are not
looked at when the rows have used up the region. -/
def uncoveredBox (region : Rect) : Except Fault Trimmed := do
  unless region ⊆ g.bounds do
    throw (.regionOutside region g.bounds)
  let bottom ← g.trimBottom .covered m region
  let top ← g.trimTop .covered m bottom.rect
  let reserved := bottom.reserved || top.reserved
  if top.rect.IsEmpty then
    return ⟨top.rect, reserved⟩
  let left ← g.trimLeft .covered m top.rect
  let right ← g.trimRight .covered m left.rect
  return ⟨right.rect, reserved || left.reserved || right.reserved⟩

end Grid

end PixelCoverage
