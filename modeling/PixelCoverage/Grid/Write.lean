import PixelCoverage.Grid.Basic
import PixelCoverage.Update

/-!
# Writing to a grid

Everything that is written to a grid is written a row at a time, as a run of neighbouring
cells: a rectangle is filled row by row from the bottom up, and copied the same way. The
bounds never change and neither does the number of cells.
-/

namespace PixelCoverage.Grid

/-- Puts a line of states over the cells from `first` on. -/
def overwrite (cells : Array PixelState) (first : Nat) : List PixelState → Array PixelState
  | [] => cells
  | s :: states => overwrite (cells.setIfInBounds first s) (first + 1) states

/-- Writes a line of states into row `y`, from column `x0` to the right. -/
def putRow (y x0 : Int) (states : List PixelState) : Update Grid Unit := fun g =>
  if g.HasRow y x0 (x0 + states.length) then
    .ok () { g with cells := overwrite g.cells (g.offset x0 y) states }
  else .error (.rowOutside y x0 (x0 + states.length) g.bounds) g

/-- Gives every pixel of a rectangle the same state. -/
def fill (r : Rect) (s : PixelState) : Update Grid Unit :=
  r.rows.forM fun y => putRow y r.x0 (List.replicate r.width s)

/-- Gives every pixel of a rectangle what `receive` makes of its state in another grid. -/
def copy (r : Rect) (source : Grid) (receive : PixelState → PixelState) : Update Grid Unit :=
  r.rows.forM fun y => do
    let states ← Update.query fun _ => source.row y r.x0 r.x1
    putRow y r.x0 (states.map receive)

/-- The grid with all cells in one state. -/
def filled (g : Grid) (s : PixelState) : Grid :=
  { g with cells := Array.replicate g.cells.size s }

@[simp] theorem size_overwrite (cells : Array PixelState) (first : Nat) (states : List PixelState) :
    (overwrite cells first states).size = cells.size := by
  induction states generalizing cells first with
  | nil => rfl
  | cons s states ih => simp only [overwrite, ih, Array.size_setIfInBounds]

/-- A cell of the overwritten run holds the state that the line has there, and every other
cell what it held. -/
theorem getElem?_overwrite (cells : Array PixelState) (first : Nat) (states : List PixelState)
    (i : Nat) :
    (overwrite cells first states)[i]? =
      if first ≤ i ∧ i < first + states.length ∧ i < cells.size then states[i - first]?
      else cells[i]? := by
  induction states generalizing cells first with
  | nil =>
    have outside : ¬ (first ≤ i ∧ i < first + 0 ∧ i < cells.size) := by omega
    simp only [overwrite, List.length_nil, if_neg outside]
  | cons s states ih =>
    rw [overwrite, ih, Array.getElem?_setIfInBounds, Array.size_setIfInBounds, List.length_cons]
    -- the head of the line lands on `first`, its tail on the cells after it
    by_cases here : first = i
    · subst here
      by_cases inside : first < cells.size
      · rw [if_neg (by omega), if_pos rfl, if_pos inside, if_pos (by omega), Nat.sub_self]
        rfl
      · rw [if_neg (by omega), if_pos rfl, if_neg inside, if_neg (by omega)]
        exact (Array.getElem?_eq_none (by omega)).symm
    · rw [if_neg here]
      by_cases inside : first + 1 ≤ i ∧ i < first + 1 + states.length ∧ i < cells.size
      · rw [if_pos inside, if_pos (by omega), show i - first = i - (first + 1) + 1 by omega]
        rfl
      · rw [if_neg inside, if_neg (by omega)]

/-- Writing a row keeps the bounds and the number of cells. -/
theorem putRow_of_hasRow {g : Grid} {y x0 : Int} {states : List PixelState}
    (h : g.HasRow y x0 (x0 + states.length)) :
    putRow y x0 states g = .ok () { g with cells := overwrite g.cells (g.offset x0 y) states } :=
  if_pos h

end PixelCoverage.Grid
