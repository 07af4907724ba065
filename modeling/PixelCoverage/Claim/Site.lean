import PixelCoverage.Claim.Basic

/-!
# Workers on a shared map

A site is a shared map together with the claims that are live on it, each under a name.
A `Step` is what a worker, or somebody else who holds the map, may do next; the order of
the steps is the interleaving of the workers. A step that ends in a fault leaves the site
as it had become, and the workers go on.

A claim leaves the live ones before it is settled, whatever comes of that. A name that is
taken again gives up the claim that had it, once the new one is in place.
-/

namespace PixelCoverage

/-- A shared map and the live claims on it. -/
structure Site where
  shared : Shared
  /-- The claims by name, the latest first. -/
  live : List (String × Claim) := []

namespace Site

/-- What may happen at a site. -/
inductive Step where
  | claim (name : String) (roi : Rect)
  | complete (name : String)
  | abort (name : String)
  /-- The claim is lost without being settled. -/
  | drop (name : String)
  | markAvailable (rect : Rect)
  | clear (rect : Rect)
  | setRestriction (r : Option Rect)
deriving DecidableEq, Repr

def claim? (s : Site) (name : String) : Option Claim :=
  s.live.lookup name

def onShared {α : Type} (u : Update Shared α) : Update Site α :=
  Update.onPart Site.shared (fun s shared => { s with shared }) u

/-- Takes a claim from the live ones and does something with it, if it is there. -/
def ending (name : String) (u : Claim → Update Shared Unit) : Update Site Unit := do
  if let some c := (← get).claim? name then
    modify fun s => { s with live := s.live.filter fun entry => entry.1 ≠ name }
    onShared (u c)

def step : Step → Update Site Unit
  | .claim name roi => do
    let c ← onShared (Claim.take roi)
    let old := (← get).claim? name
    modify fun s =>
      { s with live := (name, c) :: s.live.filter fun entry => entry.1 ≠ name }
    -- nobody can settle the old claim any more
    if let some old := old then
      onShared old.drop
  | .complete name => ending name Claim.complete
  | .abort name => ending name Claim.abort
  | .drop name => ending name Claim.drop
  | .markAvailable rect => onShared (Shared.onMap (CoverageMap.write rect .available))
  | .clear rect => onShared (Shared.onMap (CoverageMap.write rect .unrendered))
  | .setRestriction r => onShared (Shared.onMap (CoverageMap.setRestriction r))

/-- The site after a step, whether or not it ended in a fault. -/
def after (s : Site) (step : Step) : Site :=
  match Site.step step s with
  | .ok _ s => s
  | .error _ s => s

def run (s : Site) (steps : List Step) : Site :=
  steps.foldl after s

/-- The names of the live claims, in the order of their bytes. -/
def names (s : Site) : List String :=
  (s.live.map Prod.fst).mergeSort

/-- Loses all claims that are still live. -/
def close (s : Site) : Site :=
  s.run (s.names.map Step.drop)

end Site

end PixelCoverage
