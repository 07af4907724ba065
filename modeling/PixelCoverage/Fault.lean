import PixelCoverage.Decomposition

/-!
# What can go wrong

There are two kinds of failure. A `WriteError` is an answer: the checked writes give it to
a caller who asked to be told. A `Fault` is a broken precondition, and ends the operation
that meets it. Each constructor is a cause; the wording is in `message`.

The faults are those of the debug build. Four kinds of precondition are checked there only:
that a plain write takes no reservation into a map without them, that there are as many cells
as pixels, that a box is asked for inside the bounds, and that a counter stays in its range.
-/

namespace PixelCoverage

/-- Why a checked write was refused. -/
inductive WriteError where
  /-- The rectangle does not lie in the bounds of a map it touches. -/
  | outOfBounds (rect bounds : Rect)
  /-- A reservation was written into a map that takes none. -/
  | reservationsDisabled
deriving DecidableEq, Repr

namespace WriteError

/-- The text for people. -/
def message : WriteError → String
  | outOfBounds rect bounds =>
    s!"rectangle {rect.brief} is not inside coverage bounds {bounds.brief}"
  | reservationsDisabled => "reserved state written into a map without reservations"

/-- The cause and its rectangles in full. -/
def full : WriteError → String
  | outOfBounds rect bounds =>
    s!"RectOutOfBounds \x7b rect: {rect.full}, bounds: {bounds.full} \x7d"
  | reservationsDisabled => "ReservationsDisabled"

end WriteError

/-- Why an operation ended early. -/
inductive Fault where
  /-- A rectangle to write does not lie in the bounds. -/
  | outsideBounds (rect bounds : Rect)
  /-- A rectangle to copy does not lie in the bounds of target and source. -/
  | outsideEither (rect target source : Rect)
  /-- A reservation was written into a map that takes none. -/
  | reservationsDisabled
  /-- Part of a row was asked for that does not lie in the bounds. -/
  | rowOutside (y x0 x1 : Int) (bounds : Rect)
  /-- Part of a column was asked for that does not lie in the bounds. -/
  | columnOutside (x y0 y1 : Int) (bounds : Rect)
  /-- The number of cells is not the number of pixels. -/
  | cellCount (cells area : Nat)
  /-- A box was asked for in a region that does not lie in the bounds. -/
  | regionOutside (region bounds : Rect)
  /-- The strips found in a box do not tile it. -/
  | untiled (d : Decomposition)
  /-- A counter left its range upwards. -/
  | addOverflow
  /-- A counter left its range downwards. -/
  | subOverflow
  /-- A buffer larger than any was asked for. -/
  | capacityOverflow
  /-- There is no such mipmap level. -/
  | levelOutOfRange
  /-- The pixel aspect ratio is not a positive number. -/
  | aspectNotPositive
deriving DecidableEq, Repr

namespace Fault

/-- The text of a fault. -/
def message : Fault → String
  | outsideBounds rect bounds =>
    s!"{rect.full} is not inside coverage bounds {bounds.full}"
  | outsideEither rect target source =>
    s!"{rect.full} is not inside both {target.full} and {source.full}"
  | reservationsDisabled => WriteError.reservationsDisabled.message
  | rowOutside y x0 x1 bounds => s!"row {y} span {x0}..{x1} outside of {bounds.full}"
  | columnOutside x y0 y1 bounds => s!"column {x} span {y0}..{y1} outside of {bounds.full}"
  | cellCount cells area =>
    s!"assertion `left == right` failed: grid buffer does not match its bounds\n" ++
    s!"  left: {cells}\n right: {area}"
  | regionOutside region bounds => s!"{region.full} is not inside {bounds.full}"
  | untiled d => s!"border strips do not tile {d.bbox.full}: {d.full}"
  | addOverflow => "attempt to add with overflow"
  | subOverflow => "attempt to subtract with overflow"
  | capacityOverflow => "capacity overflow"
  | levelOutOfRange => "mipmap level out of range"
  | aspectNotPositive => "pixel aspect ratio must be positive"

end Fault

end PixelCoverage
