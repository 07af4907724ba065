import PixelCoverage.PixelState

/-!
# Scanning a line

A line is a row or a column, read pixel by pixel. A scan decides whether the line meets a
criterion, and stops at the first pixel that does not.

A scan also says whether a reservation mattered. For an accepted line that is so when any
pixel of it is reserved and left to its holder; for a rejected line, when the pixel that
decided it is. A reserved pixel behind the deciding one is not seen, and must not be
reported: it may well lie in what is still to be looked at.
-/

namespace PixelCoverage

/-- What a line may hold. -/
inductive Criterion where
  /-- No pixel that needs work: such lines are cut off a region. -/
  | covered
  /-- Only pixels that need work: such lines form a strip. -/
  | pending
deriving DecidableEq, Repr

/-- What one pixel means for its line, and whether it means that by being reserved. -/
inductive Verdict where
  | accept (reserved : Bool)
  | reject (reserved : Bool)
deriving DecidableEq, Repr

/-- The verdict of a criterion on a pixel state. -/
def Criterion.judge (c : Criterion) (m : Mode) (s : PixelState) : Verdict :=
  match c with
  | .covered => if m.Needs s then .reject false else .accept (s = .reserved)
  | .pending => if m.Needs s then .accept false else .reject (s = .reserved)

/-- The outcome of scanning a line. -/
structure LineScan where
  accepted : Bool
  /-- A reservation mattered. -/
  reserved : Bool
deriving DecidableEq, Repr

/-- Scans a line. The flag tells whether an accepted pixel before it was reserved. -/
def LineScan.run (c : Criterion) (m : Mode) (seen : Bool) : List PixelState → LineScan
  | [] => ⟨true, seen⟩
  | s :: line =>
    match c.judge m s with
    | .accept reserved => run c m (seen || reserved) line
    -- what came before a rejected pixel no longer counts
    | .reject reserved => ⟨false, reserved⟩

/-- A line meets a criterion. -/
def Criterion.Accepts (c : Criterion) (m : Mode) (line : List PixelState) : Prop :=
  match c with
  | .covered => ∀ s ∈ line, ¬ m.Needs s
  | .pending => ∀ s ∈ line, m.Needs s

/-- A scan accepts exactly the lines that meet the criterion. -/
theorem LineScan.accepted_run_iff {c : Criterion} {m : Mode} {seen : Bool}
    {line : List PixelState} :
    (LineScan.run c m seen line).accepted = true ↔ c.Accepts m line := by
  induction line generalizing seen with
  | nil => cases c <;> simp [LineScan.run, Criterion.Accepts]
  | cons s line ih =>
    cases c <;> by_cases needs : m.Needs s <;>
      simp [LineScan.run, Criterion.judge, Criterion.Accepts, needs, ih]

end PixelCoverage
