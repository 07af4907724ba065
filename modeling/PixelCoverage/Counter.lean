import PixelCoverage.Fault

/-!
# Counters that can run out

A coordinate steps by one within its 32 bits, and a pixel count adds up within 64. A step
over the end is a fault.
-/

namespace PixelCoverage

/-- The coordinate after `c`. -/
def stepUp (c : Int) : Except Fault Int :=
  if c < maxCoord then .ok (c + 1) else .error .addOverflow

/-- The coordinate before `c`. -/
def stepDown (c : Int) : Except Fault Int :=
  if minCoord < c then .ok (c - 1) else .error .subOverflow

/-- The sum of two pixel counts. -/
def addCounts (m n : Nat) : Except Fault Nat :=
  if m + n ≤ maxCount then .ok (m + n) else .error .addOverflow

theorem stepUp_eq_ok_iff {c d : Int} : stepUp c = .ok d ↔ c < maxCoord ∧ d = c + 1 := by
  unfold stepUp
  split
  · rename_i h
    simp only [Except.ok.injEq, h, true_and, eq_comm]
  · rename_i h
    simp only [reduceCtorEq, h, false_and]

theorem stepDown_eq_ok_iff {c d : Int} : stepDown c = .ok d ↔ minCoord < c ∧ d = c - 1 := by
  unfold stepDown
  split
  · rename_i h
    simp only [Except.ok.injEq, h, true_and, eq_comm]
  · rename_i h
    simp only [reduceCtorEq, h, false_and]

theorem addCounts_eq_ok_iff {m n k : Nat} :
    addCounts m n = .ok k ↔ m + n ≤ maxCount ∧ k = m + n := by
  unfold addCounts
  split
  · rename_i h
    simp only [Except.ok.injEq, h, true_and, eq_comm]
  · rename_i h
    simp only [reduceCtorEq, h, false_and]

end PixelCoverage
