import PixelCoverage.CoverageMap.Edit
import PixelCoverage.CoverageMap.Query
import PixelCoverage.Log

/-!
# Claims on a shared map

Workers share a map and split a region of interest between them. To claim a region is to
ask what is left of it and to reserve that, in one step; the claim lists the rectangles to
compute. Rectangles are reserved whole, as far as they lie in the bounds, and so may cover
pixels that another worker holds or has finished.

A claim ends by being settled: completed, which makes its pixels available, or aborted,
which makes them unrendered again. It is clipped to the bounds as they are by then. A claim
that is given up unsettled is aborted, with a warning.

Each step leaves a record in the log. A text is only made if its record is kept, and making
it may itself end in a fault: counting pixels can run over, and so can the census of what a
lost claim has released. The pixels are written by then, and stay so.
-/

namespace PixelCoverage

/-- A map that workers share, and its log. -/
structure Shared where
  map : CoverageMap
  /-- Records above this level are not kept. It is the level that the logging facade and the
  installed logger together let through: `off` if there is no logger. -/
  maxLevel : Log.Level := .trace
  /-- The records, the oldest first. -/
  log : Array Log.Record := #[]

namespace Shared

def onMap {α : Type} (u : Update CoverageMap α) : Update Shared α :=
  Update.onPart Shared.map (fun s m => { s with map := m }) u

/-- Adds a record, if its level is let through. -/
def record (level : Log.Level) (text : CoverageMap → Except Fault String) :
    Update Shared Unit := do
  if level ≤ (← get).maxLevel then
    let text ← Update.query fun s => text s.map
    modify fun s => { s with log := s.log.push ⟨level, text⟩ }

/-- Gives the parts of some rectangles that lie in the bounds one state. -/
def writeClipped (rects : List Rect) (state : PixelState) : Update Shared Unit := do
  let bounds := (← get).map.bounds
  rects.forM fun r => do
    unless (r ∩ bounds).IsEmpty do
      onMap (CoverageMap.write (r ∩ bounds) state)

end Shared

/-- Rectangles that one worker has to compute. -/
structure Claim where
  /-- The rectangles, and whether other workers hold part of the region. -/
  work : WorkList
  /-- The claim has been completed or aborted. -/
  settled : Bool := false
deriving DecidableEq, Repr

namespace Claim

/-- There is nothing for this worker to compute. -/
def IsIdle (c : Claim) : Prop := c.work.rects = []

instance (c : Claim) : Decidable c.IsIdle :=
  inferInstanceAs (Decidable (_ = _))

/-- Reserves what nobody has rendered or claimed of a region. -/
def take (roi : Rect) : Update Shared Claim := do
  let work ← Update.query fun s => s.map.workList .trimap roi
  Shared.writeClipped work.rects .reserved
  Shared.record .trace fun _ => do
    let area ← work.area
    return s!"claimed {work.rects.length} rects ({area} px) of {roi.brief}, " ++
      s!"reserved elsewhere: {work.reservedElsewhere}"
  return { work }

/-- Writes the pixels of a claim as available if they are rendered, and as unrendered if
not. A claim without rectangles leaves no trace. -/
def settle (c : Claim) (rendered : Bool) : Update Shared Claim := do
  unless c.IsIdle do
    -- the bounds may have changed since the claim was taken
    Shared.writeClipped c.work.rects (if rendered then .available else .unrendered)
    Shared.record .trace fun _ => do
      let area ← c.work.area
      let outcome := if rendered then "completed" else "aborted"
      return s!"{outcome} claim of {c.work.rects.length} rects ({area} px)"
  return { c with settled := true }

/-- Ends a claim. One that is not settled is aborted, so that its pixels are not lost. -/
def drop (c : Claim) : Update Shared Unit := do
  unless c.settled ∨ c.IsIdle do
    Shared.record .warn fun _ =>
      .ok (s!"render claim of {c.work.rects.length} rects dropped without being settled, " ++
        "releasing it")
    let c ← c.settle false
    Shared.record .debug fun m => do
      let census ← m.census c.work.boundingBox
      return s!"coverage after release: {census.text}"

/-- Settles a claim as rendered, and ends it. -/
def complete (c : Claim) : Update Shared Unit := do
  (← c.settle true).drop

/-- Settles a claim as not rendered, and ends it. -/
def abort (c : Claim) : Update Shared Unit := do
  (← c.settle false).drop

/-- Claims a region for a worker that is lost at once. -/
def takeAndDrop (roi : Rect) : Update Shared Unit := do
  (← take roi).drop

end Claim

end PixelCoverage
