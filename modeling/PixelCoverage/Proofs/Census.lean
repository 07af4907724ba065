import PixelCoverage.Proofs.BoundingBox

/-!
# The census is exact

A census visits the pixels of a region one by one and joins each into a box as it goes. What it
knows after some of them is the number and the smallest box of those that were unrendered and of
those that were reserved. So at the end it knows these of the whole region, and the two boxes are
the ones that the uncovered box of a map is made of, although that is found by passes over lines.

* In trimap mode the uncovered box is the box of the unrendered pixels.
* In simple mode it is the box of both kinds, and so the hull of the two boxes.

A census can end in one fault only. Before each pixel, and once more at the end of a row, the
column counter is stepped, and there is no coordinate after the greatest. A region that has
pixels and ends there is not counted at all: its first row does not come to an end.
-/

namespace PixelCoverage

open Rect

/-! ## What has been seen -/

namespace Grid

variable {g : Grid} {st : PixelState} {seen : Finset Pixel} {box region : Rect} {n : Nat}
  {p : Pixel}

/-- The box and the number of the pixels in one state, among those that have been seen. -/
structure Found (g : Grid) (st : PixelState) (seen : Finset Pixel) (box : Rect) (n : Nat) :
    Prop where
  isBox : box.IsBox fun p => p ∈ seen ∧ g.get? p = some st
  count : n = (seen.filter fun p => g.get? p = some st).card
  /-- Without pixels, the box is the empty one at the origin. -/
  zero : n = 0 → box = .zero

theorem found_empty (g : Grid) (st : PixelState) : g.Found st ∅ .zero 0 where
  isBox := isBox_of_isEmpty (by decide) fun p hp => absurd hp.1 (Finset.notMem_empty p)
  count := rfl
  zero _ := rfl

/-- A pixel in the state is joined to the box. -/
theorem Found.insert (h : g.Found st seen box n) (hp : g.get? p = some st) (hnew : p ∉ seen) :
    g.Found st (insert p seen) (box.hull (.ofPixel p)) (n + 1) where
  isBox := by
    refine (h.isBox.hull (isBox_self (.ofPixel p))).congr fun q => ?_
    rw [mem_ofPixel, Finset.mem_insert]
    refine ⟨fun hq => ?_, fun hq => ?_⟩
    · rcases hq with hq | rfl
      · exact ⟨.inr hq.1, hq.2⟩
      · exact ⟨.inl rfl, hp⟩
    · exact hq.1.elim .inr fun hin => .inl ⟨hin, hq.2⟩
  count := by
    have hout : p ∉ seen.filter fun p => g.get? p = some st :=
      fun hin => hnew (Finset.mem_filter.mp hin).1
    rw [Finset.filter_insert, if_pos hp, Finset.card_insert_of_notMem hout, h.count]
  zero hn := absurd hn (Nat.succ_ne_zero n)

/-- A pixel in another state changes nothing. -/
theorem Found.insert_of_ne (h : g.Found st seen box n) (hp : g.get? p ≠ some st) :
    g.Found st (Insert.insert p seen) box n where
  isBox := by
    refine h.isBox.congr fun q => ?_
    rw [Finset.mem_insert]
    refine ⟨fun hq => ⟨.inr hq.1, hq.2⟩, fun hq => ⟨hq.1.resolve_left ?_, hq.2⟩⟩
    intro heq
    exact hp (heq ▸ hq.2)
  count := by rw [Finset.filter_insert, if_neg hp, h.count]
  zero := h.zero

theorem needs_simple_iff :
    g.Needs .simple p ↔ g.get? p = some .unrendered ∨ g.get? p = some .reserved := by
  unfold Needs
  cases g.get? p with
  | none => simp
  | some s => cases s <;> simp

/-- What a census of a region holds once some of its pixels have been seen. -/
structure Tally (g : Grid) (r : Rect) (seen : Finset Pixel) (c : Census) : Prop where
  region : c.region = r
  unrendered : g.Found .unrendered seen c.unrendered c.unrenderedCount
  reserved : g.Found .reserved seen c.reserved c.reservedCount

theorem tally_empty (g : Grid) (region : Rect) : g.Tally region ∅ { region } :=
  ⟨rfl, found_empty g _, found_empty g _⟩

variable {c : Census}

/-- A pixel that is entered has been seen. -/
theorem Tally.add {s : PixelState} (h : g.Tally region seen c) (hp : g.get? p = some s)
    (hnew : p ∉ seen) : g.Tally region (insert p seen) (c.add p s) := by
  have hne : ∀ {st}, s ≠ st → g.get? p ≠ some st := fun hs heq =>
    hs (Option.some.inj (hp.symm.trans heq))
  cases s with
  | unrendered =>
    exact ⟨h.region, h.unrendered.insert hp hnew, h.reserved.insert_of_ne (hne (by decide))⟩
  | reserved =>
    exact ⟨h.region, h.unrendered.insert_of_ne (hne (by decide)), h.reserved.insert hp hnew⟩
  | available =>
    exact ⟨h.region, h.unrendered.insert_of_ne (hne (by decide)),
      h.reserved.insert_of_ne (hne (by decide))⟩

end Grid

/-! ## Rows -/

namespace Census

variable {g : Grid} {region : Rect} {seen : Finset Pixel} {c : Census} {x y : Int}
  {states : List PixelState}

/-- A row that ends before the greatest coordinate is entered pixel by pixel. -/
theorem addRow_tally (h : g.Tally region seen c)
    (hval : ∀ i < states.length, states[i]? = g.get? ⟨x + i, y⟩)
    (hnew : ∀ p ∈ seen, p.y = y → p.x < x) (hend : x + states.length < maxCoord) :
    ∃ d, c.addRow y x states = .ok d ∧
      g.Tally region (seen ∪ (⟨x, y, x + states.length, y + 1⟩ : Rect).toFinset) d := by
  induction states generalizing c seen x with
  | nil =>
    have hstep : stepUp x = .ok (x + 1) := by
      rw [List.length_nil] at hend
      exact stepUp_eq_ok_iff.mpr ⟨by omega, rfl⟩
    have hnone : (⟨x, y, x + (0 : Nat), y + 1⟩ : Rect).toFinset = ∅ :=
      toFinset_of_isEmpty (by simp [Rect.IsEmpty])
    refine ⟨c, ?_, ?_⟩
    · rw [addRow, hstep]
      rfl
    · rw [List.length_nil, hnone, Finset.union_empty]
      exact h
  | cons s states ih =>
    simp only [List.length_cons] at hval hend ⊢
    have hstep : stepUp x = .ok (x + 1) := stepUp_eq_ok_iff.mpr ⟨by omega, rfl⟩
    have hhead : g.get? ⟨x, y⟩ = some s := by
      have h0 := hval 0 (Nat.succ_pos _)
      simpa using h0.symm
    have hout : (⟨x, y⟩ : Pixel) ∉ seen := fun hin => Int.lt_irrefl x (hnew _ hin rfl)
    -- the rest of the row begins one column further on
    obtain ⟨d, hd, ht⟩ := ih (x := x + 1) (h.add hhead hout)
      (fun i hi => by
        have hi' := hval (i + 1) (by omega)
        rw [List.getElem?_cons_succ] at hi'
        rw [hi', show x + (i + 1 : Nat) = x + 1 + i by omega])
      (fun p hp hy => by
        rcases Finset.mem_insert.mp hp with rfl | hp
        · exact Int.lt_succ x
        · exact Int.lt_trans (hnew p hp hy) (Int.lt_succ x))
      (by omega)
    have hseen : insert ⟨x, y⟩ seen ∪
        (⟨x + 1, y, x + 1 + states.length, y + 1⟩ : Rect).toFinset =
          seen ∪ (⟨x, y, x + (states.length + 1 : Nat), y + 1⟩ : Rect).toFinset := by
      ext ⟨px, py⟩
      simp only [Finset.mem_union, Finset.mem_insert, mem_toFinset, mem_iff, Pixel.mk.injEq]
      by_cases hin : (⟨px, py⟩ : Pixel) ∈ seen
      · simp [hin]
      · simp only [hin, or_false, false_or]
        omega
    refine ⟨d, ?_, hseen ▸ ht⟩
    rw [addRow, hstep]
    exact hd

/-- A row that ends at the greatest coordinate is not entered. -/
theorem addRow_of_eq_maxCoord (hend : x + states.length = maxCoord) :
    c.addRow y x states = .error .addOverflow := by
  induction states generalizing c x with
  | nil =>
    have hstep : stepUp x = .error .addOverflow := by
      rw [List.length_nil] at hend
      exact if_neg (by omega)
    rw [addRow, hstep]
    rfl
  | cons s states ih =>
    rw [List.length_cons] at hend
    have hstep : stepUp x = .ok (x + 1) := stepUp_eq_ok_iff.mpr ⟨by omega, rfl⟩
    rw [addRow, hstep]
    exact ih (by omega)

/-- The box of what is work in a mode: a reserved pixel is work in simple mode only. -/
def box (c : Census) : Mode → Rect
  | .trimap => c.unrendered
  | .simple => c.unrendered.hull c.reserved

end Census

/-! ## Regions -/

namespace Grid

variable {g : Grid} {region : Rect}

/-- Rows that can be asked for and end before the greatest coordinate are entered one after the
other. -/
theorem addRows_tally (hg : g.Sized) (hx : region.x0 ≤ region.x1) (hend : region.x1 < maxCoord)
    (n : Nat) (hrows : ∀ i < n, g.HasRow (region.y0 + (i : Nat)) region.x0 region.x1) :
    ∃ c, ((List.range n).map fun (i : Nat) => region.y0 + i).foldlM
        (fun (c : Census) y => do c.addRow y region.x0 (← g.row y region.x0 region.x1))
        { region } = .ok c ∧
      g.Tally region (⟨region.x0, region.y0, region.x1, region.y0 + n⟩ : Rect).toFinset c := by
  induction n with
  | zero =>
    have hnone : (⟨region.x0, region.y0, region.x1, region.y0 + (0 : Nat)⟩ : Rect).toFinset =
        ∅ := toFinset_of_isEmpty (by simp [Rect.IsEmpty])
    refine ⟨{ region }, rfl, ?_⟩
    rw [hnone]
    exact tally_empty g region
  | succ n ih =>
    obtain ⟨c, hc, ht⟩ := ih fun i hi => hrows i (Nat.lt_succ_of_lt hi)
    obtain ⟨states, hrow, hlen, hval⟩ := row_of_hasRow hg (hrows n (Nat.lt_succ_self n))
    obtain ⟨d, hd, ht'⟩ := Census.addRow_tally ht (fun i hi => hval i (hlen ▸ hi))
      (fun p hp hy => by
        rw [mem_toFinset, mem_iff] at hp
        simp only at hp
        omega)
      (show region.x0 + states.length < maxCoord by omega)
    have hseen : (⟨region.x0, region.y0, region.x1, region.y0 + n⟩ : Rect).toFinset ∪
        (⟨region.x0, region.y0 + n, region.x0 + states.length, region.y0 + n + 1⟩ : Rect).toFinset =
          (⟨region.x0, region.y0, region.x1, region.y0 + (n + 1 : Nat)⟩ : Rect).toFinset := by
      ext p
      simp only [Finset.mem_union, mem_toFinset, mem_iff]
      omega
    refine ⟨d, ?_, hseen ▸ ht'⟩
    rw [List.range_succ, List.map_append, List.foldlM_append, hc]
    simp only [List.map_cons, List.map_nil, List.foldlM_cons, List.foldlM_nil, bind, Except.bind,
      hrow, hd]
    rfl

/-- **The census of a region that ends before the greatest coordinate.** -/
theorem census_tally (hg : g.Sized) (hr : region.Within g.bounds) (hend : region.x1 < maxCoord) :
    ∃ c, g.census region = .ok c ∧ g.Tally region region.toFinset c := by
  unfold census rows
  by_cases he : region.IsEmpty
  · rw [if_pos he, toFinset_of_isEmpty he]
    exact ⟨{ region }, rfl, tally_empty g region⟩
  · have hrows : region.y0 + (region.height : Nat) = region.y1 := by
      have := hr.rows
      unfold height
      omega
    obtain ⟨c, hc, ht⟩ := addRows_tally hg hr.columns hend region.height fun i hi =>
      hasRow_of_within hr (by omega) (by omega)
    rw [if_neg he]
    rw [hrows] at ht
    exact ⟨c, hc, ht⟩

/-- **The census of a region that ends there,** and has pixels. -/
theorem census_of_eq_maxCoord (hg : g.Sized) (hr : region.Within g.bounds)
    (he : ¬ region.IsEmpty) (hend : region.x1 = maxCoord) :
    g.census region = .error .addOverflow := by
  have hmem : region.y0 ∈ region.rows := by
    rw [Rect.isEmpty_iff] at he
    exact mem_rows.mpr ⟨he, Int.le_refl _, by omega⟩
  obtain ⟨first, rest, hrows⟩ := List.exists_cons_of_ne_nil (List.ne_nil_of_mem hmem)
  have hfirst : first ∈ region.rows := hrows ▸ List.mem_cons_self
  have hin := mem_rows.mp hfirst
  obtain ⟨states, hrow, hlen, _⟩ := row_of_hasRow hg (hasRow_of_within hr hin.2.1 hin.2.2)
  have hfault : Census.addRow first region.x0 { region } states = .error .addOverflow := by
    have := hr.columns
    exact Census.addRow_of_eq_maxCoord (by omega)
  unfold census
  rw [hrows, List.foldlM_cons, hrow]
  simp only [bind, Except.bind, hfault]

end Grid

namespace CoverageMap

variable {m : CoverageMap} {roi : Rect} {c : Census} {f : Fault}

/-- What a census of a region tells of it. -/
structure Counted (m : CoverageMap) (r : Rect) (c : Census) : Prop where
  region : c.region = r
  unrenderedCount : c.unrenderedCount = (m.pixelsIn .unrendered r).card
  reservedCount : c.reservedCount = (m.pixelsIn .reserved r).card
  /-- The box of the unrendered pixels is the smallest around them. -/
  unrendered : c.unrendered.IsBox fun p => p ∈ r ∧ m.grid.get? p = some .unrendered
  reserved : c.reserved.IsBox fun p => p ∈ r ∧ m.grid.get? p = some .reserved
  unrendered_eq_zero :
    (∀ p ∈ r, m.grid.get? p ≠ some .unrendered) → c.unrendered = .zero
  reserved_eq_zero : (∀ p ∈ r, m.grid.get? p ≠ some .reserved) → c.reserved = .zero
  complete_iff : c.IsComplete ↔ ∀ p ∈ r, m.grid.get? p = some .available

/-- The column counter cannot be stepped past the end of a region with pixels. -/
def Overruns (m : CoverageMap) (roi : Rect) : Prop :=
  ¬ (roi ∩ m.bounds).IsEmpty ∧ (roi ∩ m.bounds).x1 = maxCoord

instance (m : CoverageMap) (roi : Rect) : Decidable (m.Overruns roi) :=
  inferInstanceAs (Decidable (_ ∧ _))

/-- Whether a census runs over depends on the bounds only. -/
theorem overruns_congr {n : CoverageMap} (hb : n.bounds = m.bounds) :
    n.Overruns roi ↔ m.Overruns roi := by
  unfold Overruns
  rw [hb]

theorem card_pixelsIn_eq_zero_iff {region : Rect} {st : PixelState} :
    (m.pixelsIn st region).card = 0 ↔ ∀ p ∈ region, m.grid.get? p ≠ some st := by
  rw [Finset.card_eq_zero, Finset.eq_empty_iff_forall_notMem]
  simp only [mem_pixelsIn, not_and]

theorem counted_of_tally {region : Rect} (hm : m.grid.Sized) (hin : region ⊆ m.bounds)
    (h : m.grid.Tally region region.toFinset c) : m.Counted region c where
  region := h.region
  unrenderedCount := h.unrendered.count
  reservedCount := h.reserved.count
  unrendered := h.unrendered.isBox.congr fun p => by rw [mem_toFinset]
  reserved := h.reserved.isBox.congr fun p => by rw [mem_toFinset]
  unrendered_eq_zero hno :=
    h.unrendered.zero (h.unrendered.count.trans (card_pixelsIn_eq_zero_iff.mpr hno))
  reserved_eq_zero hno :=
    h.reserved.zero (h.reserved.count.trans (card_pixelsIn_eq_zero_iff.mpr hno))
  complete_iff := by
    have hun : c.unrenderedCount = (m.pixelsIn .unrendered region).card := h.unrendered.count
    have hres : c.reservedCount = (m.pixelsIn .reserved region).card := h.reserved.count
    rw [Census.IsComplete, hun, hres, card_pixelsIn_eq_zero_iff, card_pixelsIn_eq_zero_iff]
    refine ⟨fun hno p hp => ?_, fun hall => ?_⟩
    · obtain ⟨s, hs⟩ := Grid.exists_get?_of_mem hm (mem_of_subset hin hp)
      cases s with
      | available => exact hs
      | unrendered => exact absurd hs (hno.1 p hp)
      | reserved => exact absurd hs (hno.2 p hp)
    · exact ⟨fun p hp => by simp [hall p hp], fun p hp => by simp [hall p hp]⟩

/-- **A census counts what is there,** unless its column counter runs out. -/
theorem census_cases (hm : m.grid.Sound) (roi : Rect) :
    (m.Overruns roi ∧ m.census roi = .error .addOverflow) ∨
      ¬ m.Overruns roi ∧ ∃ c, m.census roi = .ok c ∧ m.Counted (roi ∩ m.bounds) c := by
  have hview : m.census roi = m.grid.census (roi ∩ m.bounds) := by
    rw [census, view_of_sound hm]
    rfl
  rw [hview]
  by_cases he : (roi ∩ m.bounds).IsEmpty
  · refine .inr ⟨fun h => h.1 he, { region := roi ∩ m.bounds }, ?_, ?_⟩
    · rw [Grid.census, rows, if_pos he]
      rfl
    · refine counted_of_tally hm.1 (inter_subset_right _ _) ?_
      rw [toFinset_of_isEmpty he]
      exact Grid.tally_empty _ _
  · have hr : (roi ∩ m.bounds).Within m.grid.bounds :=
      within_of_subset (inter_subset_right _ _) he
    by_cases hend : (roi ∩ m.bounds).x1 = maxCoord
    · exact .inl ⟨⟨he, hend⟩, Grid.census_of_eq_maxCoord hm.1 hr he hend⟩
    · have hlt : (roi ∩ m.bounds).x1 < maxCoord := by
        have hle := (hr.inRange hm.2).2.2.1.2
        omega
      obtain ⟨c, hc, ht⟩ := Grid.census_tally hm.1 hr hlt
      exact .inr ⟨fun h => hend h.2, c, hc, counted_of_tally hm.1 (inter_subset_right _ _) ht⟩

/-! ## Two ways to the same box -/

theorem Counted.isBox_box {r : Rect} (h : m.Counted r c) (mode : Mode) :
    (c.box mode).IsBox fun p => p ∈ r ∧ m.grid.Needs mode p := by
  cases mode with
  | trimap => exact h.unrendered.congr fun p => and_congr_right' (by simp [Grid.Needs])
  | simple =>
    refine (h.unrendered.hull h.reserved).congr fun p => ?_
    rw [← and_or_left, Grid.needs_simple_iff]

/-- **The uncovered box of a map without a restriction is the one that a census finds.** -/
theorem uncoveredBox_of_counted (hm : m.grid.Sound) (hfree : m.restriction = none)
    (h : m.Counted (roi ∩ m.bounds) c) (mode : Mode) :
    ∃ t, m.uncoveredBox mode roi = .ok t ∧ (t.rect.IsEmpty ↔ (c.box mode).IsEmpty) ∧
      (¬ (c.box mode).IsEmpty → t.rect = c.box mode) := by
  obtain ⟨t, et, ht, _⟩ := uncoveredBox_found hm mode roi
  rw [inside, narrowed_of_eq_none hfree] at ht
  have hbox : (c.box mode).IsBox fun p => p ∈ roi ∩ m.bounds ∧ m.grid.Needs mode p :=
    h.isBox_box mode
  refine ⟨t, et, ht.isEmpty_iff.trans hbox.isEmpty_iff.symm, fun he => (hbox.unique ht he).symm⟩

/-- **A census is exact, and agrees with the uncovered boxes.** It fails if the column counter
runs out and in no other case. Where it does not, it has the number and the smallest box of the
unrendered and of the reserved pixels, and without a restriction the boxes are also those that the
passes over lines find. -/
theorem census_exact (hm : m.Reachable) (roi : Rect) :
    (m.census roi = .error .addOverflow ↔ m.Overruns roi) ∧
      (¬ m.Overruns roi → ∃ c, m.census roi = .ok c ∧ m.Counted (roi ∩ m.bounds) c ∧
        (m.restriction = none → ∀ mode, ∃ t, m.uncoveredBox mode roi = .ok t ∧
          (t.rect.IsEmpty ↔ (c.box mode).IsEmpty) ∧
          (¬ (c.box mode).IsEmpty → t.rect = c.box mode))) := by
  rcases census_cases hm.sound roi with ⟨hover, hfail⟩ | ⟨hover, c, hc, hcount⟩
  · exact ⟨iff_of_true hfail hover, fun hno => absurd hover hno⟩
  · refine ⟨iff_of_false (by simp [hc]) hover, fun _ => ?_⟩
    exact ⟨c, hc, hcount, fun hfree => uncoveredBox_of_counted hm.sound hfree hcount⟩

/-- Two pixels of a square are not available, one of each kind, at opposite corners. -/
theorem census_exact_mixed :
    mixed.Reachable ∧ ¬ mixed.Overruns ⟨1, 1, 3, 3⟩ ∧ mixed.restriction = none ∧
      ∃ c, mixed.census ⟨1, 1, 3, 3⟩ = .ok c ∧ mixed.Counted ⟨1, 1, 3, 3⟩ c ∧
        c = ⟨⟨1, 1, 3, 3⟩, ⟨1, 2, 2, 3⟩, 1, ⟨2, 1, 3, 2⟩, 1⟩ ∧
        (∃ t, mixed.uncoveredBox .trimap ⟨1, 1, 3, 3⟩ = .ok t ∧ t.rect = ⟨1, 2, 2, 3⟩) ∧
        ∃ t, mixed.uncoveredBox .simple ⟨1, 1, 3, 3⟩ = .ok t ∧ t.rect = ⟨1, 1, 3, 3⟩ := by
  have hover : ¬ mixed.Overruns ⟨1, 1, 3, 3⟩ := by decide
  obtain ⟨c, hc, hcount, hboxes⟩ := (census_exact mixed_reachable ⟨1, 1, 3, 3⟩).2 hover
  have he : mixed.census ⟨1, 1, 3, 3⟩ =
      .ok ⟨⟨1, 1, 3, 3⟩, ⟨1, 2, 2, 3⟩, 1, ⟨2, 1, 3, 2⟩, 1⟩ := rfl
  rw [he] at hc
  cases hc
  obtain ⟨t, et, _, ht⟩ := hboxes rfl .trimap
  obtain ⟨u, eu, _, hu⟩ := hboxes rfl .simple
  exact ⟨mixed_reachable, hover, rfl, _, he, hcount, rfl, ⟨t, et, ht (by decide)⟩,
    u, eu, hu (by decide)⟩

end CoverageMap

end PixelCoverage
