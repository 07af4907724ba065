import PixelCoverage.Counter
import PixelCoverage.CoverageMap.Basic
import PixelCoverage.Grid.Write

/-!
# Changes of a map

A write gives every pixel of a rectangle one state, a copy gives it the states of another
map. Both ask for a rectangle inside the bounds, and a map without reservations takes none:
a write of one is refused, and a copied one arrives as unrendered. Each comes in two forms,
which differ only in how a refusal is told. The plain form ends in a fault, the form that
tries answers with the error.

The checks come in a fixed order: the bounds, then the reservations, and only then the
cells. An empty rectangle passes every check of the bounds, and nothing is written.

The bounds are checked in every build. The plain write checks the reservations in the debug
build only, which is the build described here. Any other stores `Config.received` of the
state, so that a reservation in a map that takes none becomes an unrendered pixel.
-/

namespace PixelCoverage.CoverageMap

variable {α : Type}

/-- Changes the grid, if it has one cell for each pixel. -/
def onGrid (u : Update Grid α) : Update CoverageMap α := do
  let _ ← Update.query CoverageMap.view
  Update.onPart CoverageMap.grid (fun m g => { m with grid := g }) u

/-- Gives every pixel of a rectangle one state, in the debug build: the second check is not
made in others, which store an unrendered pixel instead. -/
def write (rect : Rect) (s : PixelState) : Update CoverageMap Unit := do
  let m ← get
  unless rect ⊆ m.bounds do
    throw (.outsideBounds rect m.bounds)
  unless m.config.Accepts s do
    throw .reservationsDisabled
  onGrid (Grid.fill rect s)

/-- Gives every pixel of a rectangle one state, or says why not. -/
def tryWrite (rect : Rect) (s : PixelState) : Update CoverageMap (Except WriteError Unit) := do
  let m ← get
  unless rect ⊆ m.bounds do
    return .error (.outOfBounds rect m.bounds)
  unless m.config.Accepts s do
    return .error .reservationsDisabled
  onGrid (Grid.fill rect s)
  return .ok ()

/-- Gives every pixel of the map one state. -/
def writeAll (s : PixelState) : Update CoverageMap Unit :=
  modify fun m => { m with grid := m.grid.filled s }

/-- Copies the states of a rectangle from another map. -/
def copyRegion (rect : Rect) (source : CoverageMap) : Update CoverageMap Unit := do
  let m ← get
  unless rect ⊆ m.bounds ∧ rect ⊆ source.bounds do
    throw (.outsideEither rect m.bounds source.bounds)
  -- an empty rectangle asks nothing of the cells of either map
  if rect.IsEmpty then
    return ()
  let states ← Update.query fun _ => source.view
  onGrid (Grid.copy rect states m.config.received)

/-- Copies the states of a rectangle from another map, or says whose bounds it leaves. -/
def tryCopyRegion (rect : Rect) (source : CoverageMap) :
    Update CoverageMap (Except WriteError Unit) := do
  let m ← get
  unless rect ⊆ m.bounds do
    return .error (.outOfBounds rect m.bounds)
  unless rect ⊆ source.bounds do
    return .error (.outOfBounds rect source.bounds)
  copyRegion rect source
  return .ok ()

/-- Copies the states of row `y` from column `x0` up to `x1`. -/
def copyRow (x0 x1 y : Int) (source : CoverageMap) : Update CoverageMap Unit := do
  let next ← Update.query fun _ => stepUp y
  copyRegion (.ofEdges x0 y x1 next) source

/-- Lays the map out anew over other bounds, with nothing rendered and no restriction. The
old cells are given up before the new ones are asked for. -/
def reset (bounds : Rect) : Update CoverageMap Unit := do
  -- should the new cells be refused, the map keeps its bounds and has no cells for them
  modify fun m => { m with grid := ⟨m.bounds, #[]⟩ }
  let g ← Update.query fun _ => Grid.blank bounds
  modify fun m => { m with grid := g, restriction := none }

/-- Narrows all queries to a rectangle, or frees them again. -/
def setRestriction (r : Option Rect) : Update CoverageMap Unit :=
  modify fun m => { m with restriction := r }

/-- Turns the strips of work lists on or off. -/
def setDecomposeBorders (on : Bool) : Update CoverageMap Unit :=
  modify fun m => { m with config := { m.config with decomposeBorders := on } }

/-- Two maps after they have exchanged their grids, and with them whether they take
reservations. Both lose their restriction, and each keeps its other option. -/
def swap (m n : CoverageMap) : CoverageMap × CoverageMap :=
  ({ grid := n.grid, config := { m.config with reservations := n.config.reservations } },
    { grid := m.grid, config := { n.config with reservations := m.config.reservations } })

end PixelCoverage.CoverageMap
