import PixelCoverage.Grid.Write

/-!
# A grid seen pixel by pixel

`Grid.get?` is how a grid is seen; this file says what everything else does to it.

* A pixel of the bounds has a cell of its own, so a sized grid has a state exactly there.
* A row or a column that is given out lists the states of its pixels, none missing.
* Filling a rectangle gives its pixels one state, copying gives them those of the source,
  and neither touches any other pixel.

All of it rests on one fact of arithmetic: the cells of a row lie between those of the row
below and those of the row above.
-/

namespace PixelCoverage.Grid

variable {g h : Grid} {p q : Pixel}

/-! ## Where the cells are -/

/-- Rows do not overlap: a cell of a lower row comes before every cell of a higher one. -/
private theorem stride_lt {i j w dx : Nat} (rows : i < j) (hdx : dx < w) (dx' : Nat) :
    i * w + dx < j * w + dx' := by
  have step := Nat.mul_le_mul_right w (Nat.succ_le_of_lt rows)
  rw [Nat.succ_mul] at step
  omega

theorem offset_lt_area (hp : p ∈ g.bounds) : g.offset p.x p.y < g.bounds.area := by
  rw [Rect.mem_iff] at hp
  have row : (p.y - g.bounds.y0).natAbs < g.bounds.height := by
    unfold Rect.height
    omega
  have column : (p.x - g.bounds.x0).natAbs < g.bounds.width := by
    unfold Rect.width
    omega
  have := stride_lt row column 0
  rw [Rect.area, Nat.mul_comm]
  exact this

/-- Two pixels of the bounds have different cells. -/
theorem offset_inj (hp : p ∈ g.bounds) (hq : q ∈ g.bounds)
    (same : g.offset p.x p.y = g.offset q.x q.y) : p = q := by
  rw [Rect.mem_iff] at hp hq
  have hpx : (p.x - g.bounds.x0).natAbs < g.bounds.width := by
    unfold Rect.width
    omega
  have hqx : (q.x - g.bounds.x0).natAbs < g.bounds.width := by
    unfold Rect.width
    omega
  unfold offset at same
  have rows : (p.y - g.bounds.y0).natAbs = (q.y - g.bounds.y0).natAbs := by
    rcases Nat.lt_trichotomy (p.y - g.bounds.y0).natAbs (q.y - g.bounds.y0).natAbs with lt | eq | gt
    · exact absurd same (Nat.ne_of_lt (stride_lt lt hpx _))
    · exact eq
    · exact absurd same.symm (Nat.ne_of_lt (stride_lt gt hqx _))
  rw [rows] at same
  obtain ⟨px, py⟩ := p
  obtain ⟨qx, qy⟩ := q
  simp only [Pixel.mk.injEq] at *
  omega

/-- What has a state lies in the bounds. -/
theorem mem_bounds_of_get? {s : PixelState} (h : g.get? p = some s) : p ∈ g.bounds := by
  by_cases hp : p ∈ g.bounds
  · exact hp
  · rw [get?_of_not_mem hp] at h
    exact absurd h (by simp)

/-- A sized grid has a state exactly for the pixels of its bounds. -/
theorem isSome_get?_iff (sized : g.Sized) : (g.get? p).isSome ↔ p ∈ g.bounds := by
  by_cases hp : p ∈ g.bounds
  · have inside : g.offset p.x p.y < g.cells.size := by
      rw [sized]
      exact offset_lt_area hp
    simp only [get?_of_mem hp, hp, Array.getElem?_eq_getElem inside, Option.isSome_some]
  · simp only [get?_of_not_mem hp, hp, Option.isSome_none, Bool.false_eq_true]

theorem exists_get?_of_mem (sized : g.Sized) (hp : p ∈ g.bounds) : ∃ s, g.get? p = some s :=
  Option.isSome_iff_exists.mp ((isSome_get?_iff sized).mpr hp)

/-! ## Rows and columns -/

/-- Going right along a row goes up by one cell each. -/
theorem offset_add_right {x y : Int} (hx : g.bounds.x0 ≤ x) (i : Nat) :
    g.offset (x + i) y = g.offset x y + i := by
  unfold offset
  omega

/-- Going up a column goes up by one width each. -/
theorem offset_add_up {x y : Int} (hy : g.bounds.y0 ≤ y) (i : Nat) :
    g.offset x (y + i) = g.offset x y + i * g.bounds.width := by
  unfold offset
  have rows : (y + i - g.bounds.y0).natAbs = (y - g.bounds.y0).natAbs + i := by omega
  rw [rows, Nat.add_mul]
  omega

/-- The columns of a rectangle inside the bounds can be asked of each of its rows. -/
theorem hasRow_of_subset {r : Rect} {y : Int} (sub : r ⊆ g.bounds) (hy : y ∈ r.rows) :
    g.HasRow y r.x0 r.x1 := by
  rw [Rect.mem_rows] at hy
  simp only [Rect.subset_def, Rect.isEmpty_iff] at sub hy
  unfold HasRow
  omega

/-- The run of cells of a row ends where the cells end, or before. -/
theorem offset_add_le_size (sized : g.Sized) {y x0 x1 : Int} (row : g.HasRow y x0 x1) :
    g.offset x0 y + (x1 - x0).natAbs ≤ g.cells.size := by
  obtain ⟨bottom, top, left, right, order⟩ := row
  have rows := Nat.mul_le_mul_right g.bounds.width
    (show (y - g.bounds.y0).natAbs + 1 ≤ g.bounds.height by unfold Rect.height; omega)
  have columns : (x0 - g.bounds.x0).natAbs + (x1 - x0).natAbs ≤ g.bounds.width := by
    unfold Rect.width
    omega
  rw [Nat.succ_mul] at rows
  rw [sized, Rect.area, offset, Nat.mul_comm g.bounds.width]
  omega

/-- A row that is given out lists the states of its pixels from left to right. -/
theorem row_of_hasRow (sized : g.Sized) {y x0 x1 : Int} (row : g.HasRow y x0 x1) :
    ∃ states, g.row y x0 x1 = .ok states ∧ states.length = (x1 - x0).natAbs ∧
      ∀ i < (x1 - x0).natAbs, states[i]? = g.get? ⟨x0 + i, y⟩ := by
  have fits := offset_add_le_size sized row
  obtain ⟨bottom, top, left, right, order⟩ := row
  refine ⟨_, if_pos ⟨bottom, top, left, right, order⟩, ?_, ?_⟩
  · rw [Array.length_toList, Array.size_extract]
    omega
  · intro i hi
    have inside : (⟨x0 + i, y⟩ : Pixel) ∈ g.bounds := by
      simp only [Rect.mem_iff]
      omega
    rw [get?_of_mem inside, offset_add_right left, Array.getElem?_toList, Array.getElem?_extract,
      if_pos (by omega)]

/-- A walk that meets something at each step meets as much as it has steps. -/
private theorem filterMap_range {f : Nat → Option PixelState} {n : Nat}
    (found : ∀ i < n, (f i).isSome) :
    ((List.range n).filterMap f).length = n ∧
      ∀ i < n, ((List.range n).filterMap f)[i]? = f i := by
  induction n with
  | zero => exact ⟨rfl, fun i hi => absurd hi (Nat.not_lt_zero i)⟩
  | succ n ih =>
    obtain ⟨length, values⟩ := ih fun i hi => found i (Nat.lt_succ_of_lt hi)
    obtain ⟨s, hs⟩ := Option.isSome_iff_exists.1 (found n (Nat.lt_succ_self n))
    rw [List.range_succ, List.filterMap_append, List.filterMap_cons_some hs, List.filterMap_nil]
    refine ⟨by rw [List.length_append, length]; rfl, fun i hi => ?_⟩
    rcases Nat.lt_succ_iff_lt_or_eq.1 hi with lt | eq
    · rw [List.getElem?_append_left (by omega), values i lt]
    · subst eq
      rw [List.getElem?_append_right (by omega), length, Nat.sub_self, hs]
      rfl

/-- A column that is given out lists the states of its pixels from bottom to top. -/
theorem column_of_hasColumn (sized : g.Sized) {x y0 y1 : Int} (column : g.HasColumn x y0 y1) :
    ∃ states, g.column x y0 y1 = .ok states ∧ states.length = (y1 - y0).natAbs ∧
      ∀ i < (y1 - y0).natAbs, states[i]? = g.get? ⟨x, y0 + i⟩ := by
  obtain ⟨left, right, bottom, top, order⟩ := column
  have inside : ∀ i < (y1 - y0).natAbs, (⟨x, y0 + i⟩ : Pixel) ∈ g.bounds := by
    intro i hi
    simp only [Rect.mem_iff]
    omega
  -- no cell of the column is missing, so the walk keeps its length
  have cell : ∀ i < (y1 - y0).natAbs,
      (g.cells[g.offset x y0 + i * g.bounds.width]?).isSome := by
    intro i hi
    have found := (isSome_get?_iff sized).2 (inside i hi)
    rwa [get?_of_mem (inside i hi), offset_add_up bottom] at found
  obtain ⟨length, values⟩ := filterMap_range cell
  refine ⟨_, if_pos ⟨left, right, bottom, top, order⟩, length, fun i hi => ?_⟩
  rw [values i hi, get?_of_mem (inside i hi), offset_add_up bottom]

/-! ## Writing -/

/-- A row that is written holds the line, and every other pixel what it held. -/
theorem get?_putRow (sized : g.Sized) {y x0 : Int} {states : List PixelState}
    (row : g.HasRow y x0 (x0 + states.length)) :
    ∃ h, putRow y x0 states g = .ok () h ∧ h.bounds = g.bounds ∧ h.Sized ∧
      ∀ p, h.get? p =
        if p.y = y ∧ x0 ≤ p.x ∧ p.x < x0 + states.length then states[(p.x - x0).toNat]?
        else g.get? p := by
  refine ⟨_, putRow_of_hasRow row, rfl, ?_, ?_⟩
  · unfold Sized
    rw [size_overwrite]
    exact sized
  · obtain ⟨bottom, top, left, right, -⟩ := row
    intro p
    by_cases hp : p ∈ g.bounds
    · have cell := offset_lt_area hp
      rw [← sized] at cell
      show (if p ∈ g.bounds then (overwrite g.cells (g.offset x0 y) states)[g.offset p.x p.y]?
        else none) = _
      rw [if_pos hp, getElem?_overwrite, get?_of_mem hp]
      rw [Rect.mem_iff] at hp
      have hpx : (p.x - g.bounds.x0).natAbs < g.bounds.width := by
        unfold Rect.width
        omega
      by_cases same : p.y = y
      · -- in the row itself, cells count like columns
        by_cases covered : x0 ≤ p.x ∧ p.x < x0 + states.length
        · have place : g.offset p.x p.y = g.offset x0 y + (p.x - x0).toNat := by
            rw [same]
            unfold offset
            omega
          rw [if_pos (by omega), if_pos ⟨same, covered⟩, place, Nat.add_sub_cancel_left]
        · have outside : g.offset p.x p.y < g.offset x0 y ∨
              g.offset x0 y + states.length ≤ g.offset p.x p.y := by
            rw [same]
            unfold offset
            omega
          rw [if_neg (by omega), if_neg (by omega)]
      · -- in another row, the cell is on one side of the whole row
        have outside : ¬ (g.offset x0 y ≤ g.offset p.x p.y ∧
            g.offset p.x p.y < g.offset x0 y + states.length ∧
            g.offset p.x p.y < g.cells.size) := by
          rintro ⟨first, last, -⟩
          have wide : (x0 - g.bounds.x0).natAbs + states.length ≤ g.bounds.width := by
            unfold Rect.width
            omega
          unfold offset at first last
          rcases Nat.lt_trichotomy (p.y - g.bounds.y0).natAbs (y - g.bounds.y0).natAbs with
            lt | eq | gt
          · have := stride_lt lt hpx (x0 - g.bounds.x0).natAbs
            omega
          · omega
          · have step := Nat.mul_le_mul_right g.bounds.width (Nat.succ_le_of_lt gt)
            rw [Nat.succ_mul] at step
            omega
        rw [if_neg outside, if_neg (fun c => same c.1)]
    · show (if p ∈ g.bounds then (overwrite g.cells (g.offset x0 y) states)[g.offset p.x p.y]?
        else none) = _
      rw [if_neg hp, get?_of_not_mem hp, if_neg]
      rintro ⟨rfl, hx⟩
      refine hp ?_
      rw [Rect.mem_iff]
      omega

/-- Rows written one after the other hold their lines, and every other pixel what it held. -/
theorem get?_forM_putRow {x0 : Int} {n : Nat} (states : Int → List PixelState)
    (body : Int → Update Grid Unit) (ys : List Int) (sized : g.Sized)
    (length : ∀ y ∈ ys, (states y).length = n)
    (step : ∀ y ∈ ys, ∀ h, body y h = putRow y x0 (states y) h)
    (rows : ∀ y ∈ ys, g.HasRow y x0 (x0 + n)) :
    ∃ h, ys.forM body g = .ok () h ∧ h.bounds = g.bounds ∧ h.Sized ∧
      ∀ p, h.get? p =
        if p.y ∈ ys ∧ x0 ≤ p.x ∧ p.x < x0 + n then (states p.y)[(p.x - x0).toNat]?
        else g.get? p := by
  induction ys generalizing g with
  | nil =>
    refine ⟨g, rfl, rfl, sized, fun p => ?_⟩
    rw [if_neg]
    exact fun c => absurd c.1 List.not_mem_nil
  | cons y ys ih =>
    have here : g.HasRow y x0 (x0 + (states y).length) := by
      rw [length y List.mem_cons_self]
      exact rows y List.mem_cons_self
    obtain ⟨h, run, bounds, sized', values⟩ := get?_putRow sized here
    -- the bounds stay, so the rows above can still be written
    have above : ∀ z ∈ ys, h.HasRow z x0 (x0 + n) := by
      intro z hz
      unfold HasRow
      rw [bounds]
      exact rows z (List.mem_cons_of_mem y hz)
    obtain ⟨k, run', bounds', sized'', values'⟩ := ih sized'
      (fun z hz => length z (List.mem_cons_of_mem y hz))
      (fun z hz => step z (List.mem_cons_of_mem y hz)) above
    refine ⟨k, ?_, bounds'.trans bounds, sized'', fun p => ?_⟩
    · show EStateM.bind (body y) (fun _ => ys.forM body) g = _
      simp only [EStateM.bind, step y List.mem_cons_self, run, run']
    · rw [values' p, values p, length y List.mem_cons_self]
      by_cases columns : x0 ≤ p.x ∧ p.x < x0 + n
      · by_cases later : p.y ∈ ys
        · rw [if_pos ⟨later, columns⟩, if_pos ⟨List.mem_cons_of_mem y later, columns⟩]
        · rw [if_neg fun c => later c.1]
          by_cases same : p.y = y
          · rw [if_pos ⟨same, columns⟩, if_pos ⟨same ▸ List.mem_cons_self, columns⟩, same]
          · rw [if_neg fun c => same c.1, if_neg]
            exact fun c => (List.mem_cons.1 c.1).elim same later
      · rw [if_neg fun c => columns c.2, if_neg fun c => columns c.2, if_neg fun c => columns c.2]

/-- The pixels of a rectangle, as the rows and columns that are written. -/
private theorem mem_iff_rows {r : Rect} :
    p ∈ r ↔ p.y ∈ r.rows ∧ r.x0 ≤ p.x ∧ p.x < r.x0 + r.width := by
  rw [Rect.mem_rows, Rect.mem_iff, Rect.isEmpty_iff]
  unfold Rect.width
  omega

/-- The width of a rectangle leads from its left to its right edge, if it has a row. -/
private theorem add_width_of_mem_rows {r : Rect} {y : Int} (hy : y ∈ r.rows) :
    r.x0 + r.width = r.x1 := by
  rw [Rect.mem_rows, Rect.isEmpty_iff] at hy
  unfold Rect.width
  omega

/-- Filling gives the pixels of the rectangle one state and leaves the others. -/
theorem get?_fill {r : Rect} (sized : g.Sized) (sub : r ⊆ g.bounds) (s : PixelState) :
    ∃ h, fill r s g = .ok () h ∧ h.bounds = g.bounds ∧ h.Sized ∧
      ∀ p, h.get? p = if p ∈ r then some s else g.get? p := by
  obtain ⟨h, run, bounds, sized', values⟩ := get?_forM_putRow
    (fun _ => List.replicate r.width s) (fun y => putRow y r.x0 (List.replicate r.width s))
    r.rows sized (fun _ _ => List.length_replicate) (fun _ _ _ => rfl)
    (fun y hy => add_width_of_mem_rows hy ▸ hasRow_of_subset sub hy)
  refine ⟨h, run, bounds, sized', fun p => ?_⟩
  rw [values p]
  by_cases hp : p ∈ r
  · rw [if_pos hp, if_pos (mem_iff_rows.1 hp)]
    obtain ⟨-, left, right⟩ := mem_iff_rows.1 hp
    rw [List.getElem?_replicate, if_pos (by omega)]
  · rw [if_neg hp, if_neg fun c => hp (mem_iff_rows.2 c)]

/-- Copying gives the pixels of the rectangle what becomes of their states in the source,
and leaves the others. -/
theorem get?_copy {r : Rect} {source : Grid} (sized : g.Sized) (sized' : source.Sized)
    (sub : r ⊆ g.bounds) (sub' : r ⊆ source.bounds) (receive : PixelState → PixelState) :
    ∃ h, copy r source receive g = .ok () h ∧ h.bounds = g.bounds ∧ h.Sized ∧
      ∀ p, h.get? p = if p ∈ r then (source.get? p).map receive else g.get? p := by
  -- the line of each row, as the source gives it out
  have states : ∀ y, ∃ l, y ∈ r.rows → source.row y r.x0 r.x1 = .ok l ∧ l.length = r.width ∧
      ∀ i < r.width, l[i]? = source.get? ⟨r.x0 + i, y⟩ := by
    intro y
    by_cases hy : y ∈ r.rows
    · obtain ⟨l, run, length, values⟩ := row_of_hasRow sized' (hasRow_of_subset sub' hy)
      exact ⟨l, fun _ => ⟨run, length, values⟩⟩
    · exact ⟨[], fun h => absurd h hy⟩
  obtain ⟨states, spec⟩ := Classical.axiomOfChoice states
  obtain ⟨h, run, bounds, sized'', values⟩ := get?_forM_putRow
    (fun y => (states y).map receive)
    (fun y => do
      let l ← Update.query fun _ => source.row y r.x0 r.x1
      putRow y r.x0 (l.map receive))
    r.rows sized (fun y hy => by rw [List.length_map, (spec y hy).2.1])
    (fun y hy k => by
      have given : Update.query (fun _ => source.row y r.x0 r.x1) k = .ok (states y) k :=
        Update.query_of_ok (spec y hy).1
      show EStateM.bind _ _ k = _
      simp only [EStateM.bind, given])
    (fun y hy => add_width_of_mem_rows hy ▸ hasRow_of_subset sub hy)
  refine ⟨h, run, bounds, sized'', fun p => ?_⟩
  rw [values p]
  by_cases hp : p ∈ r
  · obtain ⟨row, left, right⟩ := mem_iff_rows.1 hp
    rw [if_pos hp, if_pos ⟨row, left, right⟩, List.getElem?_map,
      (spec p.y row).2.2 _ (by omega), Int.toNat_of_nonneg (by omega),
      show r.x0 + (p.x - r.x0) = p.x by omega]
  · rw [if_neg hp, if_neg fun c => hp (mem_iff_rows.2 c)]

/-- In a grid with all cells in one state, all pixels are. -/
theorem get?_filled (sized : g.Sized) (s : PixelState) (hp : p ∈ g.bounds) :
    (g.filled s).get? p = some s := by
  have cell := offset_lt_area hp
  rw [← sized] at cell
  rw [get?_of_mem (g := g.filled s) hp]
  exact Array.getElem?_replicate.trans (if_pos cell)

end PixelCoverage.Grid
