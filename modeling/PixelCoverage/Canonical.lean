import PixelCoverage.Fault

/-!
# Canonical rectangles

Outside an image, rectangles have floating-point edges in canonical coordinates. Here such
a rectangle is brought to the pixels of an image: scaled to a mipmap level and a pixel
aspect, and rounded outwards to whole pixels.

How floating-point rectangles are put in order, rounded and scaled is the business of a
geometry library and not of this one. Its functions are a parameter, `CanonicalRect.Geometry`,
and nothing is asked of them beyond their types: whatever edges they answer with, the pixels
are made of them by `Rect.ofEdges`.

To run, the parameter is `CanonicalRect.Geometry.plain`, which settles the corners of
floating-point arithmetic by a rule each. An edge that is not a number gives way to the edge
opposite when the two are put in order. Where the edges of an axis are not in strict order,
they round towards each other instead of apart, so that an empty axis stays empty.

What remains is decided here, by `Rect.coordOfFloat`: an edge that is still not a number
counts as 0, and one beyond the coordinates stops at the last one.
-/

namespace PixelCoverage

/-- A rectangle with floating-point edges, in any order. -/
structure CanonicalRect where
  /-- The left edge. -/
  x0 : Float
  /-- The bottom edge. -/
  y0 : Float
  /-- The right edge. -/
  x1 : Float
  /-- The top edge. -/
  y1 : Float

namespace CanonicalRect

/-- What a geometry library does to canonical rectangles. -/
structure Geometry where
  /-- The same rectangle with its edges in order. -/
  ordered : CanonicalRect → CanonicalRect
  /-- The rectangle with its edges moved outwards to whole numbers. -/
  rounded : CanonicalRect → CanonicalRect
  /-- The box of the rectangle after `x` is multiplied by one factor and `y` by another. -/
  scaled : CanonicalRect → Float → Float → CanonicalRect

/-! ## The geometry that runs -/

/-- The lesser of two edges; one that is not a number gives way. -/
def lesser (a b : Float) : Float :=
  if a.isNaN then b else if b.isNaN then a else if a < b then a else b

/-- The greater of two edges; one that is not a number gives way. -/
def greater (a b : Float) : Float :=
  if a.isNaN then b else if b.isNaN then a else if a < b then b else a

/-- The same rectangle with its edges in order. -/
def ordered (r : CanonicalRect) : CanonicalRect where
  x0 := lesser r.x0 r.x1
  y0 := lesser r.y0 r.y1
  x1 := greater r.x0 r.x1
  y1 := greater r.y0 r.y1

/-- The smallest rectangle around two that are in order. -/
def hull (r s : CanonicalRect) : CanonicalRect where
  x0 := lesser r.x0 s.x0
  y0 := lesser r.y0 s.y0
  x1 := greater r.x1 s.x1
  y1 := greater r.y1 s.y1

/-- The edges of one axis at whole numbers: apart if they are in strict order, otherwise
towards each other. -/
def roundAxis (low high : Float) : Float × Float :=
  if low < high then (low.floor, high.ceil) else (low.ceil, high.floor)

/-- Both axes with their edges at whole numbers. -/
def rounded (r : CanonicalRect) : CanonicalRect :=
  let (x0, x1) := roundAxis r.x0 r.x1
  let (y0, y1) := roundAxis r.y0 r.y1
  ⟨x0, y0, x1, y1⟩

/-- The box of the rectangle after `x` is multiplied by `sx` and `y` by `sy`. The products
with zero stand for the other entries of the matrix: they carry an infinite edge over to
the other axis, as something that is not a number. -/
def scaled (r : CanonicalRect) (sx sy : Float) : CanonicalRect :=
  let x (p q : Float) : Float := sx * p + 0.0 * q + 0.0
  let y (p q : Float) : Float := 0.0 * p + sy * q + 0.0
  let side (p : Float) : CanonicalRect :=
    ordered ⟨x p r.y0, y p r.y0, x p r.y1, y p r.y1⟩
  (side r.x0).hull (side r.x1)

/-- The geometry of these rules. -/
def Geometry.plain : Geometry where
  ordered := CanonicalRect.ordered
  rounded := CanonicalRect.rounded
  scaled := CanonicalRect.scaled

end CanonicalRect

/-! ## From canonical rectangles to pixels and back -/

namespace Rect

open CanonicalRect (Geometry)

/-- The whole coordinate at a floating-point edge: the fraction is cut off, an edge beyond
the coordinates stops at the last one, and what is not a number counts as 0. -/
def coordOfFloat (v : Float) : Int := v.toInt32.toInt

/-- The smallest rectangle of whole pixels around a canonical one. -/
def enclosing (r : CanonicalRect) (geometry : Geometry := .plain) : Rect :=
  let outer := geometry.rounded (geometry.ordered r)
  ofEdges (coordOfFloat outer.x0) (coordOfFloat outer.y0) (coordOfFloat outer.x1)
    (coordOfFloat outer.y1)

/-- The pixels of a canonical rectangle in an image at a mipmap level, where each level
halves the size and a pixel is `aspect` times as wide as high. -/
def ofCanonical (r : CanonicalRect) (level : Nat) (aspect : Float)
    (geometry : Geometry := .plain) : Except Fault Rect :=
  if 32 ≤ level then .error .levelOutOfRange
  else if aspect.isFinite ∧ 0.0 < aspect then
    let scale := 1.0 / Float.ofNat (1 <<< level)
    .ok (enclosing (geometry.scaled r (scale / aspect) scale) geometry)
  else .error .aspectNotPositive

/-- The pixels of a canonical rectangle are those around its image under some scaling. -/
theorem exists_enclosing_of_ofCanonical {q : CanonicalRect} {level : Nat} {aspect : Float}
    {geometry : Geometry} {r : Rect} (h : ofCanonical q level aspect geometry = .ok r) :
    ∃ image, r = enclosing image geometry := by
  unfold ofCanonical at h
  split at h
  · cases h
  · split at h
    · cases h
      exact ⟨_, rfl⟩
    · cases h

/-- The same edges in floating point. -/
def toCanonical (r : Rect) : CanonicalRect :=
  ⟨Float.ofInt r.x0, Float.ofInt r.y0, Float.ofInt r.x1, Float.ofInt r.y1⟩

end Rect

end PixelCoverage
