/-!
# The range of coordinates

Pixel coordinates are integers of 32 bits with a sign. They are kept as `Int`, so that
sums and differences mean what they say; the places where a counter could leave the
range check it, by the steps of `PixelCoverage.Counter`.
-/

namespace PixelCoverage

def minCoord : Int := -2147483648

def maxCoord : Int := 2147483647

/-- An integer is a coordinate when 32 bits with a sign can hold it. -/
def IsCoord (c : Int) : Prop := minCoord ≤ c ∧ c ≤ maxCoord

instance (c : Int) : Decidable (IsCoord c) :=
  inferInstanceAs (Decidable (minCoord ≤ c ∧ c ≤ maxCoord))

/-- The greatest number of cells that one buffer can hold: 63 bits. -/
def maxCells : Nat := 9223372036854775807

/-- The greatest pixel count that a sum of areas can reach: 64 bits. -/
def maxCount : Nat := 18446744073709551615

end PixelCoverage
