import PixelCoverage.Proofs.Edits

/-!
# A map as a function of its pixels

A `Picture` is what a map is to those who use it: the bounds, a state for each pixel of the
bounds, and the options. It has no cells, so there is nothing in it about strides, origins or
the order of rows. Each change of a map has a counterpart on pictures that can be read off
pixel by pixel.

`Shows` ties the two together by what can be read of a map. That every change of a map does to
the cells what its counterpart does to the function is proved here for one change, and for
histories of several maps in `PixelCoverage.Proofs.Album`.
-/

namespace PixelCoverage

/-- Bounds, with a state for each pixel of the bounds. -/
structure Picture where
  bounds : Rect
  state : {p : Pixel // p ∈ bounds} → PixelState
  /-- Queries look no further than this rectangle. -/
  restriction : Option Rect
  /-- Reserved pixels are allowed. -/
  reservations : Bool
  decomposeBorders : Bool

namespace Picture

variable (P Q : Picture) (rect : Rect)

/-- The state of a pixel, and `none` for those outside the bounds. -/
def read (p : Pixel) : Option PixelState :=
  if h : p ∈ P.bounds then some (P.state ⟨p, h⟩) else none

/-- Nothing is rendered, and nothing restricted. -/
def blank (bounds : Rect) (reservations decomposeBorders : Bool) : Picture where
  bounds
  state _ := .unrendered
  restriction := none
  reservations
  decomposeBorders

/-- Starts again over other bounds, with the same options. -/
def reset (bounds : Rect) : Picture := blank bounds P.reservations P.decomposeBorders

/-- Gives the pixels of a rectangle one state. -/
def write (s : PixelState) : Picture :=
  { P with state := fun p => if p.1 ∈ rect then s else P.state p }

/-- Gives the pixels of a rectangle one state, if they all have one and may have this one. -/
def tryWrite (s : PixelState) : Picture :=
  if rect ⊆ P.bounds ∧ (s = .reserved → P.reservations = true) then P.write rect s else P

/-- What a state of another picture becomes here. -/
def receive (s : PixelState) : PixelState :=
  if s = .reserved ∧ P.reservations = false then .unrendered else s

/-- Gives the pixels of a rectangle the states that they have in another picture. -/
def copy : Picture :=
  { P with
    state := fun p =>
      if p.1 ∈ rect then ((Q.read p.1).map P.receive).getD (P.state p) else P.state p }

/-- Copies a rectangle, if its pixels all have a state in both pictures. -/
def tryCopy : Picture := if rect ⊆ P.bounds ∧ rect ⊆ Q.bounds then P.copy Q rect else P

def setDecomposeBorders (on : Bool) : Picture := { P with decomposeBorders := on }

def setRestriction (r : Option Rect) : Picture := { P with restriction := r }

/-- Takes the bounds, the states and the reservations of another picture. -/
def exchanged : Picture where
  bounds := Q.bounds
  state := Q.state
  restriction := none
  reservations := Q.reservations
  decomposeBorders := P.decomposeBorders

variable {P Q rect}

theorem read_of_mem {p : Pixel} (h : p ∈ P.bounds) : P.read p = some (P.state ⟨p, h⟩) := dif_pos h

end Picture

namespace CoverageMap

open Update

variable {m n source : CoverageMap} {P Q : Picture} {rect bounds : Rect} {st : PixelState}

/-- What can be read of the map is the picture. -/
structure Shows (m : CoverageMap) (P : Picture) : Prop where
  bounds : m.bounds = P.bounds
  read : ∀ p, m.read p = .ok (P.read p)
  restriction : m.restriction = P.restriction
  reservations : m.config.reservations = P.reservations
  decomposeBorders : m.config.decomposeBorders = P.decomposeBorders

namespace Shows

/-- A map that can be read has its cells. -/
theorem sized (h : m.Shows P) : m.grid.Sized := by
  by_cases hs : m.grid.Sized
  · exact hs
  · have hread := h.read ⟨0, 0⟩
    rw [read_of_not_sized hs] at hread
    cases hread

theorem get? (h : m.Shows P) (p : Pixel) : m.grid.get? p = P.read p := by
  have hread := h.read p
  rw [read_of_sized h.sized] at hread
  exact Except.ok.inj hread

theorem accepts_iff (h : m.Shows P) :
    m.config.Accepts st ↔ (st = .reserved → P.reservations = true) := by
  rw [← h.reservations]
  rfl

theorem received (h : m.Shows P) : m.config.received = P.receive := by
  funext s
  unfold Config.received Picture.receive
  simp only [h.accepts_iff]
  cases s <;> cases P.reservations <;> rfl

/-- Other cells show other states. Only the pixels of the bounds need be looked at. -/
theorem repaint (h : m.Shows P) {g : Grid} (state : {p : Pixel // p ∈ P.bounds} → PixelState)
    (hb : g.bounds = m.bounds) (hg : g.Sized)
    (hget : ∀ p : {p : Pixel // p ∈ P.bounds}, g.get? p = some (state p)) :
    Shows { m with grid := g } { P with state } where
  bounds := hb.trans h.bounds
  read p := by
    rw [read_of_sized hg, Picture.read]
    by_cases hp : p ∈ P.bounds
    · rw [dif_pos hp]
      exact congrArg Except.ok (hget ⟨p, hp⟩)
    · have hout : p ∉ g.bounds := by
        rw [hb]
        exact h.bounds ▸ hp
      rw [dif_neg hp]
      exact congrArg Except.ok (Grid.get?_of_not_mem hout)
  restriction := h.restriction
  reservations := h.reservations
  decomposeBorders := h.decomposeBorders

end Shows

/-! ## One change of one map -/

theorem shows_blank (bounds : Rect) (config : Config) :
    (blank bounds config).Shows
      (.blank bounds config.reservations config.decomposeBorders) where
  bounds := rfl
  read p := by
    rw [read_of_sized (sized_blank bounds config), get?_blank]
    rfl
  restriction := rfl
  reservations := rfl
  decomposeBorders := rfl

theorem follows_reset (bounds : Rect) : Follows Shows (·.reset bounds) (reset bounds) := by
  intro m P h _ n hn
  by_cases hle : bounds.area ≤ maxCells
  · rw [reset_of_le hle] at hn
    cases hn
    have hblank := shows_blank bounds m.config
    rw [h.reservations, h.decomposeBorders] at hblank
    exact hblank
  · rw [reset_of_lt (Nat.lt_of_not_le hle)] at hn
    cases hn

theorem Shows.write_of_ok (h : m.Shows P) (hn : write rect st m = .ok () n) :
    n.Shows (P.write rect st) := by
  by_cases ha : rect ⊆ m.bounds ∧ m.grid.Sized ∧ m.config.Accepts st
  · obtain ⟨g, hg, hb, hs, hget⟩ := write_of_accepts ha.2.1 ha.1 ha.2.2
    rw [hg] at hn
    cases hn
    refine h.repaint _ hb hs fun p => ?_
    rw [hget, h.get?, Picture.read_of_mem p.2]
    exact (apply_ite some _ _ _).symm
  · obtain ⟨f, hf⟩ := write_of_refused ha
    rw [hf] at hn
    cases hn

theorem follows_write (rect : Rect) (st : PixelState) :
    Follows Shows (·.write rect st) (write rect st) :=
  fun _ _ h _ _ hn => h.write_of_ok hn

theorem follows_tryWrite (rect : Rect) (st : PixelState) :
    Follows Shows (·.tryWrite rect st) (tryWrite rect st) := by
  intro m P h a n hn
  unfold Picture.tryWrite
  simp only [← h.bounds, ← h.accepts_iff]
  by_cases ha : rect ⊆ m.bounds ∧ m.config.Accepts st
  · rw [if_pos ha]
    obtain ⟨g, hg, -⟩ := write_of_accepts h.sized ha.1 ha.2
    rw [tryWrite_of_ok hg] at hn
    cases hn
    exact h.write_of_ok hg
  · rw [if_neg ha]
    obtain ⟨e, he⟩ := tryWrite_of_refused ha
    rw [he] at hn
    cases hn
    exact h

/-- To give all cells one state is to write that state into the bounds. -/
theorem follows_writeAll (st : PixelState) :
    Follows Shows (fun P => P.write P.bounds st) (writeAll st) := by
  intro m P h _ n hn
  cases hn
  have hs : (m.grid.filled st).Sized := by
    unfold Grid.Sized Grid.filled
    rw [Array.size_replicate]
    exact h.sized
  refine h.repaint _ rfl hs fun p => ?_
  have hp : p.1 ∈ m.bounds := by
    rw [h.bounds]
    exact p.2
  rw [if_pos p.2]
  exact Grid.get?_filled h.sized st hp

theorem Shows.copyRegion_of_ok (h : m.Shows P) (hq : source.Shows Q)
    (hn : copyRegion rect source m = .ok () n) : n.Shows (P.copy Q rect) := by
  obtain ⟨hsub, hsub'⟩ := subset_of_copyRegion_eq_ok hn
  obtain ⟨g, hg, hb, hs, hget⟩ := copyRegion_of_subset h.sized hq.sized hsub hsub'
  rw [hg] at hn
  cases hn
  refine h.repaint _ hb hs fun p => ?_
  rw [hget, h.get?, hq.get?, h.received, Picture.read_of_mem p.2]
  by_cases hp : p.1 ∈ rect
  · have hp' : p.1 ∈ Q.bounds := hq.bounds ▸ Rect.mem_of_subset hsub' hp
    rw [if_pos hp, if_pos hp, Picture.read_of_mem hp']
    rfl
  · rw [if_neg hp, if_neg hp]

theorem follows_copyRegion (rect : Rect) (hq : source.Shows Q) :
    Follows Shows (·.copy Q rect) (copyRegion rect source) :=
  fun _ _ h _ _ hn => h.copyRegion_of_ok hq hn

theorem follows_tryCopyRegion (rect : Rect) (hq : source.Shows Q) :
    Follows Shows (·.tryCopy Q rect) (tryCopyRegion rect source) := by
  intro m P h a n hn
  unfold Picture.tryCopy
  simp only [← h.bounds, ← hq.bounds]
  by_cases hsub : rect ⊆ m.bounds ∧ rect ⊆ source.bounds
  · rw [if_pos hsub]
    obtain ⟨g, hg, -⟩ := copyRegion_of_subset h.sized hq.sized hsub.1 hsub.2
    rw [tryCopyRegion_of_ok hg] at hn
    cases hn
    exact h.copyRegion_of_ok hq hg
  · rw [if_neg hsub]
    obtain ⟨e, he⟩ := tryCopyRegion_of_refused hsub
    rw [he] at hn
    cases hn
    exact h

theorem follows_copyRow (x0 x1 y : Int) (hq : source.Shows Q) :
    Follows Shows (·.copy Q (.ofEdges x0 y x1 (y + 1))) (copyRow x0 x1 y source) := by
  intro m P h _ n hn
  by_cases hy : y < maxCoord
  · rw [copyRow_of_lt hy] at hn
    exact h.copyRegion_of_ok hq hn
  · rw [copyRow_of_not_lt hy] at hn
    cases hn

theorem follows_setRestriction (r : Option Rect) :
    Follows Shows (·.setRestriction r) (setRestriction r) := by
  intro m P h _ n hn
  cases hn
  exact ⟨h.bounds, h.read, rfl, h.reservations, h.decomposeBorders⟩

theorem follows_setDecomposeBorders (on : Bool) :
    Follows Shows (·.setDecomposeBorders on) (setDecomposeBorders on) := by
  intro m P h _ n hn
  cases hn
  exact ⟨h.bounds, h.read, h.restriction, h.reservations, rfl⟩

/-- Two maps that are swapped show each other's pixels. -/
theorem Shows.swap (h : m.Shows P) (hn : n.Shows Q) :
    (m.swap n).1.Shows (P.exchanged Q) ∧ (m.swap n).2.Shows (Q.exchanged P) :=
  ⟨⟨hn.bounds, hn.read, rfl, hn.reservations, h.decomposeBorders⟩,
    ⟨h.bounds, h.read, rfl, h.reservations, hn.decomposeBorders⟩⟩

end CoverageMap

end PixelCoverage
