import PixelCoverage.CoverageMap.Edit

/-!
# Several maps by name

Copies and swaps take two maps, so a history of changes is a history of a family of maps.
An atlas is such a family. A `Command` is one step of a history; a step that names a map
that is not there changes nothing.
-/

namespace PixelCoverage

/-- Coverage maps by name. -/
structure Atlas (κ : Type) where
  /-- The maps with their names, in the order in which the names were first used. -/
  entries : List (κ × CoverageMap) := []

namespace Atlas

variable {κ : Type} [DecidableEq κ]

def get? (a : Atlas κ) (name : κ) : Option CoverageMap :=
  a.entries.lookup name

/-- Stores a map under a name, in place of the one that had it. -/
def insert (a : Atlas κ) (name : κ) (m : CoverageMap) : Atlas κ :=
  ⟨go a.entries⟩
where
  /-- Replaces the first entry of that name, or adds one at the end. -/
  go : List (κ × CoverageMap) → List (κ × CoverageMap)
    | [] => [(name, m)]
    | entry :: rest => if entry.1 = name then (name, m) :: rest else entry :: go rest

@[simp] theorem get?_insert_self (a : Atlas κ) (name : κ) (m : CoverageMap) :
    (a.insert name m).get? name = some m := by
  unfold get? insert
  induction a.entries with
  | nil => simp [insert.go]
  | cons entry rest ih =>
    unfold insert.go
    by_cases same : entry.1 = name
    · simp [same]
    · rw [if_neg same, List.lookup_cons, ih]
      have differs : (name == entry.1) = false := by simpa using Ne.symm same
      simp [differs]

theorem get?_insert_of_ne (a : Atlas κ) {name other : κ} (m : CoverageMap) (h : other ≠ name) :
    (a.insert name m).get? other = a.get? other := by
  unfold get? insert
  have differs : (other == name) = false := by simpa using h
  induction a.entries with
  | nil => rw [insert.go, List.lookup_cons, differs]
  | cons entry rest ih =>
    unfold insert.go
    by_cases same : entry.1 = name
    · rw [if_pos same, List.lookup_cons, List.lookup_cons, same, differs]
    · rw [if_neg same, List.lookup_cons, List.lookup_cons, ih]

/-- A step in the history of several maps: it makes the map `name`, or carries out the
change of the same word on it. -/
inductive Command (κ : Type) where
  | create (name : κ) (bounds : Rect) (config : Config)
  | clone (name source : κ)
  | reset (name : κ) (bounds : Rect)
  | setDecomposeBorders (name : κ) (on : Bool)
  | setRestriction (name : κ) (r : Option Rect)
  | write (name : κ) (rect : Rect) (s : PixelState)
  | tryWrite (name : κ) (rect : Rect) (s : PixelState)
  | writeAll (name : κ) (s : PixelState)
  | copyRegion (name : κ) (rect : Rect) (source : κ)
  | tryCopyRegion (name : κ) (rect : Rect) (source : κ)
  | copyRow (name : κ) (x0 x1 y : Int) (source : κ)
  | swap (name other : κ)
deriving DecidableEq, Repr

/-- Changes one map of an atlas. -/
def onMap {α : Type} (name : κ) (u : Update CoverageMap α) : Update (Atlas κ) (Option α) :=
  fun a =>
    match a.get? name with
    | none => .ok none a
    | some m =>
      match u m with
      | .ok x m => .ok (some x) (a.insert name m)
      | .error f m => .error f (a.insert name m)

/-- Changes one map of an atlas with the help of another. -/
def onPair {α : Type} (name source : κ) (u : CoverageMap → Update CoverageMap α) :
    Update (Atlas κ) (Option α) := do
  match (← get).get? source with
  | none => return none
  | some m => onMap name (u m)

/-- Carries out a step. The answer is the refusal of a step that tries. -/
def run : Command κ → Update (Atlas κ) (Option WriteError)
  | .create name bounds config => do
    let m ← Update.query fun _ => CoverageMap.create bounds config
    modify fun a => a.insert name m
    return none
  | .clone name source => do
    if let some m := (← get).get? source then
      modify fun a => a.insert name m
    return none
  | .reset name bounds => plain <| onMap name (CoverageMap.reset bounds)
  | .setDecomposeBorders name on => plain <| onMap name (CoverageMap.setDecomposeBorders on)
  | .setRestriction name r => plain <| onMap name (CoverageMap.setRestriction r)
  | .write name rect s => plain <| onMap name (CoverageMap.write rect s)
  | .tryWrite name rect s => refusal <$> onMap name (CoverageMap.tryWrite rect s)
  | .writeAll name s => plain <| onMap name (CoverageMap.writeAll s)
  | .copyRegion name rect source => plain <| onPair name source (CoverageMap.copyRegion rect)
  | .tryCopyRegion name rect source =>
    refusal <$> onPair name source (CoverageMap.tryCopyRegion rect)
  | .copyRow name x0 x1 y source => plain <| onPair name source (CoverageMap.copyRow x0 x1 y)
  | .swap name other => do
    let a ← get
    if let (some m, some n) := (a.get? name, a.get? other) then
      let (m, n) := m.swap n
      set ((a.insert name m).insert other n)
    return none
where
  /-- A step without an answer. -/
  plain (u : Update (Atlas κ) (Option Unit)) : Update (Atlas κ) (Option WriteError) := do
    let _ ← u
    return none
  /-- The refusal in the answer of a step that tries. -/
  refusal : Option (Except WriteError Unit) → Option WriteError
    | some (.error e) => some e
    | _ => none

end Atlas

end PixelCoverage
