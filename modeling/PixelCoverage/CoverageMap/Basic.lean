import PixelCoverage.Grid.Basic

/-!
# The coverage map of an image

A coverage map is a grid of pixel states with two things beside it: a restriction, which
narrows what queries look at and changes no pixel, and a configuration, which says whether
the map takes reservations and whether work lists cut the uncovered box into strips.
-/

namespace PixelCoverage

/-- The options of a map. -/
structure Config where
  /-- The map may hold reserved pixels. -/
  reservations : Bool := true
  /-- Work lists cut the uncovered box into strips and a residual. -/
  decomposeBorders : Bool := true
deriving DecidableEq, Repr

namespace Config

/-- The options for a map that only one renderer uses: no reservations. -/
def single : Config := { reservations := false }

/-- A map with these options may hold this state. -/
def Accepts (c : Config) (s : PixelState) : Prop := s = .reserved → c.reservations = true

instance (c : Config) (s : PixelState) : Decidable (c.Accepts s) :=
  inferInstanceAs (Decidable (s = .reserved → c.reservations = true))

/-- What becomes of a state that comes in from another map. -/
def received (c : Config) (s : PixelState) : PixelState :=
  if c.Accepts s then s else .unrendered

def full (c : Config) : String :=
  s!"CoverageConfig \x7b reservations: {c.reservations}, " ++
  s!"decompose_borders: {c.decomposeBorders} \x7d"

theorem accepts_received (c : Config) (s : PixelState) : c.Accepts (c.received s) := by
  simp only [received]
  split
  · assumption
  · exact fun reserved => nomatch reserved

end Config

/-- The coverage of an image. -/
structure CoverageMap where
  grid : Grid
  /-- Queries look no further than this rectangle. -/
  restriction : Option Rect := none
  config : Config := {}
deriving DecidableEq, Repr

namespace CoverageMap

def bounds (m : CoverageMap) : Rect := m.grid.bounds

/-- A map over `bounds` with nothing rendered. -/
def create (bounds : Rect) (config : Config := {}) : Except Fault CoverageMap := do
  return { grid := ← Grid.blank bounds, config }

/-- The map without pixels. -/
def empty : CoverageMap := { grid := ⟨.zero, #[]⟩ }

instance : Inhabited CoverageMap := ⟨empty⟩

/-- The grid, to be looked at. -/
def view (m : CoverageMap) : Except Fault Grid := m.grid.checked

/-- The state of a pixel, or `none` outside the bounds. -/
def read (m : CoverageMap) (p : Pixel) : Except Fault (Option PixelState) := do
  return (← m.view).get? p

/-- Bounds, restriction and options as text. -/
def full (m : CoverageMap) : String :=
  let restriction :=
    match m.restriction with
    | none => "None"
    | some r => s!"Some({r.full})"
  s!"CoverageMap \x7b bounds: {m.bounds.full}, restriction: {restriction}, " ++
  s!"config: {m.config.full}, .. \x7d"

end CoverageMap

end PixelCoverage
