import PixelCoverage.Grid.Lemmas
import PixelCoverage.Proofs.Outcome

/-!
# A change does all or nothing

A write or a copy checks first whether it may be made: that the rectangle lies in the bounds,
that the map takes the state, that the grids have their cells. Once the first cell is written
nothing can stop it any more, so it has either given every pixel of the rectangle what it
should, or the map is as it was. Several writes of one state are one mark of all their rectangles.

The exception is a reset. It gives up the old cells before it asks for new ones, and if it is
refused them, the map has lost its pixels and kept everything else.
-/

namespace PixelCoverage

open Update

/-- An empty rectangle has no row to fill. -/
theorem Grid.fill_of_isEmpty {g : Grid} {r : Rect} (h : r.IsEmpty) (s : PixelState) :
    fill r s g = .ok () g := by
  have hrows : r.rows = [] := if_pos h
  unfold fill
  rw [hrows]
  rfl

namespace CoverageMap

variable {m n source : CoverageMap} {rect bounds : Rect} {st : PixelState} {f : Fault}

/-! ## Looking at the grid -/

theorem view_eq_ok_iff {g : Grid} : m.view = .ok g ↔ m.grid.Sized ∧ m.grid = g := by
  unfold view Grid.checked
  split
  · simp only [*, Except.ok.injEq, true_and]
  · simp only [*, reduceCtorEq, false_and]

theorem read_of_sized (hs : m.grid.Sized) (p : Pixel) : m.read p = .ok (m.grid.get? p) := by
  have hview : m.view = .ok m.grid := Grid.checked_of_sized hs
  unfold read
  rw [hview]
  rfl

theorem read_of_not_sized (hs : ¬ m.grid.Sized) (p : Pixel) :
    m.read p = .error (.cellCount m.grid.cells.size m.grid.bounds.area) := by
  have hview : m.view = .error (.cellCount m.grid.cells.size m.grid.bounds.area) := if_neg hs
  unfold read
  rw [hview]
  rfl

/-! ## Changes of the grid -/

section Grid

variable {α : Type} {u : Update Grid α}

theorem onGrid_of_ok {a : α} {g : Grid} (hs : m.grid.Sized) (h : u m.grid = .ok a g) :
    onGrid u m = .ok a { m with grid := g } := by
  have hview : query view m = .ok m.grid m := query_of_ok (Grid.checked_of_sized hs)
  unfold onGrid
  simp only [bind, EStateM.bind, hview]
  exact onPart_of_ok h

theorem onGrid_of_not_sized (hs : ¬ m.grid.Sized) :
    onGrid u m = .error (.cellCount m.grid.cells.size m.grid.bounds.area) m := by
  have hview : query view m = .error (.cellCount m.grid.cells.size m.grid.bounds.area) m :=
    query_of_error (if_neg hs)
  unfold onGrid
  simp only [bind, EStateM.bind, hview]

/-- What goes through on every grid that has its cells leaves a map as it was, if it fails. -/
theorem eq_of_onGrid_eq_error (hu : m.grid.Sized → ∃ a g, u m.grid = .ok a g)
    (h : onGrid u m = .error f n) : n = m := by
  by_cases hs : m.grid.Sized
  · obtain ⟨a, g, hg⟩ := hu hs
    rw [onGrid_of_ok hs hg] at h
    cases h
  · rw [onGrid_of_not_sized hs] at h
    cases h
    rfl

end Grid

/-! ## Writes -/

/-- What a write that goes through leaves: the same map with other pixels in `rect`. -/
theorem write_of_accepts (hs : m.grid.Sized) (hsub : rect ⊆ m.bounds) (ha : m.config.Accepts st) :
    ∃ g, write rect st m = .ok () { m with grid := g } ∧ g.bounds = m.bounds ∧ g.Sized ∧
      ∀ p, g.get? p = if p ∈ rect then some st else m.grid.get? p := by
  obtain ⟨g, hfill, hb, hg, hget⟩ := Grid.get?_fill hs hsub st
  refine ⟨g, ?_, hb, hg, hget⟩
  unfold write
  simp only [get_bind_apply, hsub, ha, if_true]
  exact onGrid_of_ok hs hfill

theorem write_of_isEmpty (hs : m.grid.Sized) (he : rect.IsEmpty) (ha : m.config.Accepts st) :
    write rect st m = .ok () m := by
  have hsub : rect ⊆ m.bounds := Rect.subset_of_isEmpty he
  unfold write
  simp only [get_bind_apply, hsub, ha, if_true]
  exact onGrid_of_ok hs (Grid.fill_of_isEmpty he st)

/-- Nothing is written past the bounds. -/
theorem write_of_not_subset (hsub : ¬ rect ⊆ m.bounds) :
    write rect st m = .error (.outsideBounds rect m.bounds) m := by
  unfold write
  simp only [get_bind_apply, hsub, if_false]
  rfl

/-- A map does not take every state. -/
theorem write_of_not_accepts (hsub : rect ⊆ m.bounds) (ha : ¬ m.config.Accepts st) :
    write rect st m = .error .reservationsDisabled m := by
  unfold write
  simp only [get_bind_apply, hsub, ha, if_true, if_false]
  rfl

/-- A write that is refused leaves the map as it was. -/
theorem write_of_refused (h : ¬ (rect ⊆ m.bounds ∧ m.grid.Sized ∧ m.config.Accepts st)) :
    ∃ f, write rect st m = .error f m := by
  by_cases hsub : rect ⊆ m.bounds
  · by_cases ha : m.config.Accepts st
    · have hs : ¬ m.grid.Sized := fun hs => h ⟨hsub, hs, ha⟩
      refine ⟨.cellCount m.grid.cells.size m.grid.bounds.area, ?_⟩
      unfold write
      simp only [get_bind_apply, hsub, ha, if_true]
      exact onGrid_of_not_sized hs
    · exact ⟨.reservationsDisabled, write_of_not_accepts hsub ha⟩
  · exact ⟨.outsideBounds rect m.bounds, write_of_not_subset hsub⟩

theorem eq_of_write_eq_error (h : write rect st m = .error f n) : n = m := by
  by_cases ha : rect ⊆ m.bounds ∧ m.grid.Sized ∧ m.config.Accepts st
  · obtain ⟨g, hw, -⟩ := write_of_accepts ha.2.1 ha.1 ha.2.2
    rw [hw] at h
    cases h
  · obtain ⟨f', hw⟩ := write_of_refused ha
    rw [hw] at h
    cases h
    rfl

/-- A write that tries is the plain one where that may be made. -/
theorem tryWrite_of_ok (h : write rect st m = .ok () n) :
    tryWrite rect st m = .ok (.ok ()) n := by
  unfold write at h
  unfold tryWrite
  simp only [get_bind_apply] at h ⊢
  split at h
  · rename_i hsub
    split at h
    · rename_i ha
      simp only [hsub, ha, if_true, bind, EStateM.bind, h]
      rfl
    · cases h
  · cases h

theorem tryWrite_of_not_subset (hsub : ¬ rect ⊆ m.bounds) :
    tryWrite rect st m = .ok (.error (.outOfBounds rect m.bounds)) m := by
  unfold tryWrite
  simp only [get_bind_apply, hsub, if_false]
  rfl

theorem tryWrite_of_not_accepts (hsub : rect ⊆ m.bounds) (ha : ¬ m.config.Accepts st) :
    tryWrite rect st m = .ok (.error .reservationsDisabled) m := by
  unfold tryWrite
  simp only [get_bind_apply, hsub, ha, if_true, if_false]
  rfl

/-- Where it may not be made, it says so and leaves the map as it was. -/
theorem tryWrite_of_refused (h : ¬ (rect ⊆ m.bounds ∧ m.config.Accepts st)) :
    ∃ e, tryWrite rect st m = .ok (.error e) m := by
  by_cases hsub : rect ⊆ m.bounds
  · have ha : ¬ m.config.Accepts st := fun ha => h ⟨hsub, ha⟩
    exact ⟨_, tryWrite_of_not_accepts hsub ha⟩
  · exact ⟨_, tryWrite_of_not_subset hsub⟩

/-! ## Marks -/

section Marked

variable {o : CoverageMap} {rects rects' : List Rect} {k : PixelState} {p : Pixel}

/-- `n` is `m` with some rectangles in one state, as far as they lie in the bounds. -/
structure Marked (rects : List Rect) (st : PixelState) (m n : CoverageMap) : Prop where
  restriction : n.restriction = m.restriction
  config : n.config = m.config
  bounds : n.bounds = m.bounds
  sized : n.grid.Sized
  get? : ∀ p, n.grid.get? p =
    if p ∈ m.bounds ∧ ∃ r ∈ rects, p ∈ r then some st else m.grid.get? p

theorem Marked.refl (hm : m.grid.Sized) (st : PixelState) : Marked [] st m m :=
  ⟨rfl, rfl, rfl, hm, fun p => by simp⟩

/-- A pixel that is marked has the state. -/
theorem Marked.of_mem (h : Marked rects st m n) (hp : p ∈ m.bounds)
    (hl : ∃ r ∈ rects, p ∈ r) : n.grid.get? p = some st := by
  rw [h.get?, if_pos ⟨hp, hl⟩]

/-- A pixel that is not marked has kept its state. -/
theorem Marked.of_not_mem (h : Marked rects st m n) (hl : ¬ ∃ r ∈ rects, p ∈ r) :
    n.grid.get? p = m.grid.get? p := by
  rw [h.get?, if_neg fun hm => hl hm.2]

/-- A pixel in another state is not marked. -/
theorem Marked.kept (h : Marked rects st m n) (hk : n.grid.get? p = some k) (hne : k ≠ st) :
    m.grid.get? p = some k ∧ ¬ ∃ r ∈ rects, p ∈ r := by
  have hp : p ∈ m.bounds := h.bounds ▸ Grid.mem_bounds_of_get? hk
  by_cases hl : ∃ r ∈ rects, p ∈ r
  · rw [h.of_mem hp hl] at hk
    exact absurd (Option.some.inj hk).symm hne
  · rw [h.of_not_mem hl] at hk
    exact ⟨hk, hl⟩

/-- Marks made one after the other are one mark of all the rectangles. The last mark of a pixel
counts, and all of them give it the same state. -/
theorem Marked.append (h : Marked rects st m n) (h' : Marked rects' st n o) :
    Marked (rects ++ rects') st m o where
  restriction := h'.restriction.trans h.restriction
  config := h'.config.trans h.config
  bounds := h'.bounds.trans h.bounds
  sized := h'.sized
  get? p := by
    rw [h'.get?, h.bounds, h.get?]
    simp only [List.mem_append, or_and_right, exists_or, and_or_left]
    by_cases hl : p ∈ m.bounds ∧ ∃ r ∈ rects', p ∈ r
    · rw [if_pos hl, if_pos (Or.inr hl)]
    · rw [if_neg hl]
      simp only [hl, or_false]

/-- The part of a rectangle in the bounds can be written, if it has pixels or not. -/
theorem write_inter_bounds (r : Rect) (hs : m.grid.Sized) (ha : m.config.Accepts st) :
    ∃ g, write (r ∩ m.bounds) st m = .ok () { m with grid := g } ∧
      Marked [r] st m { m with grid := g } := by
  obtain ⟨g, hw, hb, hg, hget⟩ := write_of_accepts hs (Rect.inter_subset_right r m.bounds) ha
  refine ⟨g, hw, rfl, rfl, hb, hg, fun p => ?_⟩
  rw [hget p]
  simp only [List.mem_singleton, exists_eq_left, Rect.mem_inter, and_comm]

end Marked

/-! ## Copies -/

/-- An empty rectangle asks nothing of the cells of either map. -/
theorem copyRegion_of_isEmpty (hsub : rect ⊆ m.bounds) (hsub' : rect ⊆ source.bounds)
    (he : rect.IsEmpty) : copyRegion rect source m = .ok () m := by
  unfold copyRegion
  simp only [get_bind_apply, hsub, hsub', he, and_self, if_true]
  rfl

/-- What a copy that goes through leaves: the same map with the pixels of the source in
`rect`, as far as it may hold their states. -/
theorem copyRegion_of_subset (hs : m.grid.Sized) (hs' : source.grid.Sized)
    (hsub : rect ⊆ m.bounds) (hsub' : rect ⊆ source.bounds) :
    ∃ g, copyRegion rect source m = .ok () { m with grid := g } ∧ g.bounds = m.bounds ∧ g.Sized ∧
      ∀ p, g.get? p = if p ∈ rect then (source.grid.get? p).map m.config.received
        else m.grid.get? p := by
  by_cases he : rect.IsEmpty
  · refine ⟨m.grid, copyRegion_of_isEmpty hsub hsub' he, rfl, hs, fun p => ?_⟩
    rw [if_neg (Rect.isEmpty_iff_forall_not_mem.mp he p)]
  · obtain ⟨g, hcopy, hb, hg, hget⟩ := Grid.get?_copy hs hs' hsub hsub' m.config.received
    refine ⟨g, ?_, hb, hg, hget⟩
    have hview : query (fun _ => source.view) m = .ok source.grid m :=
      query_of_ok (Grid.checked_of_sized hs')
    unfold copyRegion
    simp only [get_bind_apply, hsub, hsub', he, and_self, if_true, if_false]
    simp only [bind, EStateM.bind, hview]
    exact onGrid_of_ok hs hcopy

/-- Nothing is copied past the bounds of either map. -/
theorem copyRegion_of_not_subset (h : ¬ (rect ⊆ m.bounds ∧ rect ⊆ source.bounds)) :
    copyRegion rect source m = .error (.outsideEither rect m.bounds source.bounds) m := by
  unfold copyRegion
  simp only [get_bind_apply, h, if_false]
  rfl

theorem subset_of_copyRegion_eq_ok (h : copyRegion rect source m = .ok () n) :
    rect ⊆ m.bounds ∧ rect ⊆ source.bounds := by
  refine Decidable.byContradiction fun hsub => ?_
  rw [copyRegion_of_not_subset hsub] at h
  cases h

/-- A copy that is refused leaves the map as it was, also if it is the source whose cells are
missing. -/
theorem eq_of_copyRegion_eq_error (h : copyRegion rect source m = .error f n) : n = m := by
  unfold copyRegion at h
  rw [get_bind_apply] at h
  split at h
  · rename_i hsub
    split at h
    · cases h
    · rcases bind_eq_error h with h | ⟨states, t, hq, h⟩
      · exact (query_eq_error h).2
      · obtain ⟨hview, rfl⟩ := query_eq_ok hq
        obtain ⟨hs', rfl⟩ := view_eq_ok_iff.mp hview
        refine eq_of_onGrid_eq_error (fun hs => ?_) h
        obtain ⟨g, hcopy, -⟩ := Grid.get?_copy hs hs' hsub.1 hsub.2 _
        exact ⟨(), g, hcopy⟩
  · cases h
    rfl

theorem tryCopyRegion_of_ok (h : copyRegion rect source m = .ok () n) :
    tryCopyRegion rect source m = .ok (.ok ()) n := by
  obtain ⟨hsub, hsub'⟩ := subset_of_copyRegion_eq_ok h
  unfold tryCopyRegion
  simp only [get_bind_apply, hsub, hsub', if_true]
  simp only [bind, EStateM.bind, h]
  rfl

/-- The map that is copied into is asked first. -/
theorem tryCopyRegion_of_not_subset (hsub : ¬ rect ⊆ m.bounds) :
    tryCopyRegion rect source m = .ok (.error (.outOfBounds rect m.bounds)) m := by
  unfold tryCopyRegion
  simp only [get_bind_apply, hsub, if_false]
  rfl

theorem tryCopyRegion_of_source_not_subset (hsub : rect ⊆ m.bounds)
    (hsub' : ¬ rect ⊆ source.bounds) :
    tryCopyRegion rect source m = .ok (.error (.outOfBounds rect source.bounds)) m := by
  unfold tryCopyRegion
  simp only [get_bind_apply, hsub, hsub', if_true, if_false]
  rfl

theorem tryCopyRegion_of_refused (h : ¬ (rect ⊆ m.bounds ∧ rect ⊆ source.bounds)) :
    ∃ e, tryCopyRegion rect source m = .ok (.error e) m := by
  by_cases hsub : rect ⊆ m.bounds
  · have hsub' : ¬ rect ⊆ source.bounds := fun hsub' => h ⟨hsub, hsub'⟩
    exact ⟨_, tryCopyRegion_of_source_not_subset hsub hsub'⟩
  · exact ⟨_, tryCopyRegion_of_not_subset hsub⟩

/-- A row is copied as the rectangle that it is, unless there is no row after it. -/
theorem copyRow_of_lt {x0 x1 y : Int} (hy : y < maxCoord) :
    copyRow x0 x1 y source m = copyRegion (.ofEdges x0 y x1 (y + 1)) source m := by
  have hstep : query (fun _ => stepUp y) m = .ok (y + 1) m :=
    query_of_ok (stepUp_eq_ok_iff.mpr ⟨hy, rfl⟩)
  unfold copyRow
  simp only [bind, EStateM.bind, hstep]

theorem copyRow_of_not_lt {x0 x1 y : Int} (hy : ¬ y < maxCoord) :
    copyRow x0 x1 y source m = .error .addOverflow m := by
  have hstep : query (fun _ => stepUp y) m = .error .addOverflow m := query_of_error (if_neg hy)
  unfold copyRow
  simp only [bind, EStateM.bind, hstep]

theorem eq_of_copyRow_eq_error {x0 x1 y : Int} (h : copyRow x0 x1 y source m = .error f n) :
    n = m := by
  by_cases hy : y < maxCoord
  · rw [copyRow_of_lt hy] at h
    exact eq_of_copyRegion_eq_error h
  · rw [copyRow_of_not_lt hy] at h
    cases h
    rfl

/-! ## New cells -/

/-- The map over `bounds` on which nothing has happened. -/
def blank (bounds : Rect) (config : Config) : CoverageMap :=
  { grid := ⟨bounds, Array.replicate bounds.area .unrendered⟩, config }

theorem sized_blank (bounds : Rect) (config : Config) : (blank bounds config).grid.Sized :=
  Array.size_replicate

theorem get?_blank (bounds : Rect) (config : Config) (p : Pixel) :
    (blank bounds config).grid.get? p = if p ∈ bounds then some .unrendered else none := by
  by_cases hp : p ∈ bounds
  · have hcell := Grid.offset_lt_area (g := (blank bounds config).grid) hp
    rw [if_pos hp, Grid.get?_of_mem hp]
    exact Array.getElem?_replicate.trans (if_pos hcell)
  · rw [if_neg hp, Grid.get?_of_not_mem hp]

theorem create_of_le {config : Config} (h : bounds.area ≤ maxCells) :
    create bounds config = .ok (blank bounds config) := by
  have hblank : Grid.blank bounds = .ok (blank bounds config).grid := if_pos h
  unfold create
  rw [hblank]
  rfl

theorem create_of_lt {config : Config} (h : maxCells < bounds.area) :
    create bounds config = .error .capacityOverflow := by
  have hblank : Grid.blank bounds = .error .capacityOverflow := if_neg (Nat.not_le.mpr h)
  unfold create
  rw [hblank]
  rfl

theorem eq_blank_of_create {config : Config} (h : create bounds config = .ok m) :
    m = blank bounds config := by
  by_cases hle : bounds.area ≤ maxCells
  · rw [create_of_le hle] at h
    exact (Except.ok.inj h).symm
  · rw [create_of_lt (Nat.lt_of_not_le hle)] at h
    cases h

/-- A map that is laid out anew keeps nothing but its options. -/
theorem reset_of_le (h : bounds.area ≤ maxCells) :
    reset bounds m = .ok () (blank bounds m.config) := by
  have hblank : Grid.blank bounds = .ok (blank bounds m.config).grid := if_pos h
  unfold reset
  simp only [bind, EStateM.bind, query, hblank]
  rfl

/-- A map that is refused its new cells has lost the old ones. -/
theorem reset_of_lt (h : maxCells < bounds.area) :
    reset bounds m = .error .capacityOverflow { m with grid := ⟨m.bounds, #[]⟩ } := by
  have hblank : Grid.blank bounds = .error .capacityOverflow := if_neg (Nat.not_le.mpr h)
  unfold reset
  simp only [bind, EStateM.bind, query, hblank]
  rfl

theorem eq_blank_of_reset (h : reset bounds m = .ok () n) : n = blank bounds m.config := by
  by_cases hle : bounds.area ≤ maxCells
  · rw [reset_of_le hle] at h
    cases h
    rfl
  · rw [reset_of_lt (Nat.lt_of_not_le hle)] at h
    cases h

end CoverageMap

end PixelCoverage
