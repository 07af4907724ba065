import PixelCoverage.Claim.Basic
import PixelCoverage.Proofs.Edits
import PixelCoverage.Proofs.History

/-!
# What a fault leaves of a map

Whoever shares a map goes on with it after a fault, so a fault had better leave a map whose
grid has its cells. Writes and copies do: they fail before the first cell is written, and the
map is the one it was.

A reset does not. It has given up the old cells by the time the new ones are refused, and the
map is left with the bounds that it had and no cell for any of their pixels. From then on every
look at it is a fault of its own. So a reset is safe only where nothing could be lost, on a map
whose bounds have no area.
-/

namespace PixelCoverage.CoverageMap

open Update

variable {m n : CoverageMap} {f : Fault}

/-- The changes of a map that may end in a fault. -/
inductive Edit where
  | reset (bounds : Rect)
  | write (rect : Rect) (s : PixelState)
  | copyRegion (rect : Rect) (source : CoverageMap)
  | copyRow (x0 x1 y : Int) (source : CoverageMap)

namespace Edit

def run : Edit → Update CoverageMap Unit
  | reset bounds => CoverageMap.reset bounds
  | write rect s => CoverageMap.write rect s
  | copyRegion rect source => CoverageMap.copyRegion rect source
  | copyRow x0 x1 y source => CoverageMap.copyRow x0 x1 y source

/-- The change lays the map out anew. -/
def IsReset : Edit → Prop
  | reset _ => True
  | write .. | copyRegion .. | copyRow .. => False

variable {e : Edit}

/-- **What a fault leaves.** The map `m` has become `n` by a change that ended in `f`. -/
structure Spoiled (e : Edit) (m : CoverageMap) (f : Fault) (n : CoverageMap) : Prop where
  bounds : n.bounds = m.bounds
  restriction : n.restriction = m.restriction
  config : n.config = m.config
  /-- Only a reset changes a map by a fault, and only if the map has something to lose. -/
  same_iff : n = m ↔ (e.IsReset → m.bounds.area = 0)
  /-- There is no way for a map to be changed and still be whole. -/
  sized_iff : n.grid.Sized ↔ n = m
  /-- A map that is changed can no longer be read. -/
  lost : n ≠ m → f = .capacityOverflow ∧
    ∀ p, n.read p = .error (.cellCount 0 m.bounds.area)

theorem spoiled_refl (hm : m.grid.Sized) (he : ¬ e.IsReset) (f : Fault) : e.Spoiled m f m where
  bounds := rfl
  restriction := rfl
  config := rfl
  same_iff := iff_of_true rfl fun h => absurd h he
  sized_iff := iff_of_true hm rfl
  lost h := absurd rfl h

/-- A map without its cells is the map that it was if that had none. -/
theorem spoiled_reset (hm : m.grid.Sized) (bounds : Rect) :
    (reset bounds).Spoiled m .capacityOverflow { m with grid := ⟨m.bounds, #[]⟩ } := by
  have hempty : m.grid.cells = #[] ↔ m.bounds.area = 0 := by
    rw [← Array.size_eq_zero_iff, hm]
    rfl
  have hsame : { m with grid := ⟨m.bounds, #[]⟩ } = m ↔ m.bounds.area = 0 := by
    rw [← hempty]
    refine ⟨fun h => ?_, fun h => ?_⟩
    · rw [← h]
    · rw [← h]
      rfl
  have hsized : ({ m with grid := ⟨m.bounds, #[]⟩ } : CoverageMap).grid.Sized ↔
      m.bounds.area = 0 := eq_comm
  refine ⟨rfl, rfl, rfl, ?_, ?_, fun h => ⟨rfl, ?_⟩⟩
  · rw [hsame]
    exact ⟨fun h _ => h, fun h => h trivial⟩
  · rw [hsame, hsized]
  · exact read_of_not_sized fun hs => h (hsame.mpr (hsized.mp hs))

/-- **A fault spares the map, unless it is laid out anew,** also where the map is shared. -/
theorem spoiled_of_fault (hm : m.Reachable) (h : e.run m = .error f n) :
    e.Spoiled m f n ∧
      ∀ s : Shared, s.map = m → Shared.onMap e.run s = .error f { s with map := n } := by
  have hs : m.grid.Sized := hm.sound.1
  refine ⟨?_, fun s hmap => onPart_of_error (hmap ▸ h)⟩
  cases e with
  | reset bounds =>
    by_cases hle : bounds.area ≤ maxCells
    · rw [run, reset_of_le hle] at h
      cases h
    · rw [run, reset_of_lt (Nat.lt_of_not_le hle)] at h
      cases h
      exact spoiled_reset hs bounds
  | write rect s =>
    rw [eq_of_write_eq_error h]
    exact spoiled_refl hs (by simp [IsReset]) f
  | copyRegion rect source =>
    rw [eq_of_copyRegion_eq_error h]
    exact spoiled_refl hs (by simp [IsReset]) f
  | copyRow x0 x1 y source =>
    rw [eq_of_copyRow_eq_error h]
    exact spoiled_refl hs (by simp [IsReset]) f

/-- A write outside the bounds and a reset to all coordinates that there are. -/
theorem spoiled_of_fault_mixed :
    mixed.Reachable ∧
      (∃ f n, (write ⟨2, 2, 5, 4⟩ .available).run mixed = .error f n ∧
        (write ⟨2, 2, 5, 4⟩ .available).Spoiled mixed f n ∧ n = mixed) ∧
      ∃ f n, (reset ⟨minCoord, minCoord, maxCoord, maxCoord⟩).run mixed = .error f n ∧
        (reset ⟨minCoord, minCoord, maxCoord, maxCoord⟩).Spoiled mixed f n ∧ n ≠ mixed := by
  have hw : (write ⟨2, 2, 5, 4⟩ .available).run mixed =
      .error (.outsideBounds ⟨2, 2, 5, 4⟩ ⟨0, 0, 4, 4⟩) mixed := rfl
  have hr : (reset ⟨minCoord, minCoord, maxCoord, maxCoord⟩).run mixed =
      .error .capacityOverflow { mixed with grid := ⟨mixed.bounds, #[]⟩ } :=
    reset_of_lt (by decide)
  have hws := (spoiled_of_fault mixed_reachable hw).1
  have hrs := (spoiled_of_fault mixed_reachable hr).1
  refine ⟨mixed_reachable, ⟨_, _, hw, hws, rfl⟩, _, _, hr, hrs, fun heq => ?_⟩
  exact absurd (hrs.same_iff.mp heq trivial) (by decide)

/-- **A reset that fails loses the pixels of the map.** It had a state for each of them, and
now none of them can be read. -/
theorem reset_loses_pixels :
    ∃ m n : CoverageMap, create ⟨0, 0, 26, 25⟩ = .ok m ∧ m.Reachable ∧
      (reset ⟨minCoord, minCoord, maxCoord, maxCoord⟩).run m = .error .capacityOverflow n ∧
      n.bounds = m.bounds ∧ n ≠ m ∧ m.read ⟨0, 0⟩ = .ok (some .unrendered) ∧
      n.read ⟨0, 0⟩ = .error (.cellCount 0 650) := by
  have hnew : create ⟨0, 0, 26, 25⟩ = .ok (blank ⟨0, 0, 26, 25⟩ {}) := create_of_le (by decide)
  have hread : (blank ⟨0, 0, 26, 25⟩ {}).read ⟨0, 0⟩ = .ok (some .unrendered) := by
    rw [read_of_sized (sized_blank _ _), get?_blank, if_pos (by decide)]
  have hlost : ({ blank ⟨0, 0, 26, 25⟩ {} with grid := ⟨⟨0, 0, 26, 25⟩, #[]⟩ } : CoverageMap).read
      ⟨0, 0⟩ = .error (.cellCount 0 650) := read_of_not_sized (by decide) _
  refine ⟨_, _, hnew, reachable_of_create (by decide) hnew, reset_of_lt (by decide), rfl, ?_, hread,
    hlost⟩
  intro heq
  rw [← heq] at hread
  exact absurd (hlost.symm.trans hread) (by simp)

end Edit

end PixelCoverage.CoverageMap
