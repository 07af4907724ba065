import PixelCoverage.Proofs.Uniform

/-!
# What an answer depends on

An answer is about the pixels of its region. It knows nothing of where the grid begins, how long
its rows are or what lies around the region, and of a pixel it only knows what the criteria make
of it. So two grids whose pixels mean the same in a region have the same answers there, whatever
else they are.

This is shown for one pass, since there is nothing in a query but passes. A pass on a part of the
region leaves a part of that part, and both grids leave the same one, so the next pass can be
compared as well.
-/

namespace PixelCoverage

/-! ## Lines and sweeps -/

/-- A scan looks at nothing but the verdicts on the states of its line. -/
theorem LineScan.run_congr {c : Criterion} {m : Mode} {seen : Bool} {line line' : List PixelState}
    (h : line.map (c.judge m) = line'.map (c.judge m)) :
    LineScan.run c m seen line = LineScan.run c m seen line' := by
  induction line generalizing seen line' with
  | nil =>
    rw [List.map_nil] at h
    rw [List.map_eq_nil_iff.mp h.symm]
  | cons s line ih =>
    cases line' with
    | nil => cases h
    | cons t line' =>
      rw [List.map_cons, List.map_cons, List.cons.injEq] at h
      unfold LineScan.run
      rw [h.1]
      cases c.judge m t with
      | accept reserved => exact ih h.2
      -- both scans end here, whatever comes after
      | reject reserved => rfl

section Sweeps

variable {scan scan' : Int → Except Fault LineScan}

/-- A sweep looks at no lines but those between the edges. -/
theorem Sweep.up_congr (n : Nat) (lo hi : Int) (hn : lo + n ≤ hi)
    (h : ∀ y, lo ≤ y → y < hi → scan y = scan' y) : Sweep.up scan n lo = Sweep.up scan' n lo := by
  induction n generalizing lo with
  | zero => rfl
  | succ n ih =>
    rw [Sweep.up, Sweep.up, h lo (Int.le_refl lo) (by omega)]
    cases hstep : stepUp lo with
    | error f => rfl
    | ok next =>
      obtain ⟨_, rfl⟩ := stepUp_eq_ok_iff.mp hstep
      have hrest := ih (lo + 1) (by omega) fun y h0 h1 => h y (by omega) h1
      simp only [bind, Except.bind, hrest]

theorem Sweep.down_congr (n : Nat) (lo hi : Int) (hn : lo ≤ hi - n)
    (h : ∀ y, lo ≤ y → y < hi → scan y = scan' y) :
    Sweep.down scan n hi = Sweep.down scan' n hi := by
  induction n generalizing hi with
  | zero => rfl
  | succ n ih =>
    rw [Sweep.down, Sweep.down]
    cases hstep : stepDown hi with
    | error f => rfl
    | ok next =>
      obtain ⟨_, rfl⟩ := stepDown_eq_ok_iff.mp hstep
      have hrest := ih (hi - 1) (by omega) fun y h0 h1 => h y h0 (by omega)
      simp only [bind, Except.bind, h (hi - 1) (by omega) (by omega), hrest]

end Sweeps

/-! ## Grids that mean the same -/

namespace Grid

variable {g k : Grid} {c : Criterion} {m : Mode} {r s : Rect}

/-- Lists that show the same part of two grids agree in what the grids agree in. -/
theorem map_eq_map_of_get? {α : Type} {f : PixelState → α} {at? : Nat → Pixel} {n : Nat}
    {l l' : List PixelState} (hlen : l.length = n) (hlen' : l'.length = n)
    (hval : ∀ i < n, l[i]? = g.get? (at? i)) (hval' : ∀ i < n, l'[i]? = k.get? (at? i))
    (h : ∀ i < n, (g.get? (at? i)).map f = (k.get? (at? i)).map f) : l.map f = l'.map f := by
  refine List.ext_getElem? fun i => ?_
  rw [List.getElem?_map, List.getElem?_map]
  by_cases hi : i < n
  · rw [hval i hi, hval' i hi, h i hi]
  · rw [List.getElem?_eq_none (by omega), List.getElem?_eq_none (by omega)]

/-- The pixels of a rectangle inside both grids mean the same in both. -/
structure Alike (g k : Grid) (m : Mode) (r : Rect) : Prop where
  sized : g.Sized
  sized' : k.Sized
  inRange : g.bounds.InRange
  within : r.Within g.bounds
  within' : r.Within k.bounds
  judge : ∀ p ∈ r, ∀ c : Criterion, (g.get? p).map (c.judge m) = (k.get? p).map (c.judge m)

/-- Both of two searches in a rectangle find the same part of it. -/
def Both (u v : Except Fault Trimmed) (r : Rect) : Prop :=
  ∃ t, u = .ok t ∧ v = .ok t ∧ t.rect.Within r

namespace Alike

theorem mono (h : g.Alike k m r) (hs : s.Within r) : g.Alike k m s where
  sized := h.sized
  sized' := h.sized'
  inRange := h.inRange
  within := hs.trans h.within
  within' := hs.trans h.within'
  judge p hp := h.judge p (hs.mem hp)

theorem scanRow_eq (h : g.Alike k m r) (c : Criterion) {y : Int} (h0 : r.y0 ≤ y)
    (h1 : y < r.y1) : g.scanRow c m r y = k.scanRow c m r y := by
  obtain ⟨l, hl, hlen, hval⟩ := row_of_hasRow h.sized (hasRow_of_within h.within h0 h1)
  obtain ⟨l', hl', hlen', hval'⟩ := row_of_hasRow h.sized' (hasRow_of_within h.within' h0 h1)
  rw [scanRow, scanRow, hl, hl']
  refine congrArg Except.ok (LineScan.run_congr (map_eq_map_of_get? hlen hlen' hval hval' ?_))
  intro i hi
  have hcols := h.within.columns
  refine h.judge _ ?_ c
  rw [Rect.mem_iff]
  simp only
  omega

theorem scanColumn_eq (h : g.Alike k m r) (c : Criterion) {x : Int} (h0 : r.x0 ≤ x)
    (h1 : x < r.x1) : g.scanColumn c m r x = k.scanColumn c m r x := by
  obtain ⟨l, hl, hlen, hval⟩ := column_of_hasColumn h.sized (hasColumn_of_within h.within h0 h1)
  obtain ⟨l', hl', hlen', hval'⟩ :=
    column_of_hasColumn h.sized' (hasColumn_of_within h.within' h0 h1)
  rw [scanColumn, scanColumn, hl, hl']
  refine congrArg Except.ok (LineScan.run_congr (map_eq_map_of_get? hlen hlen' hval hval' ?_))
  intro i hi
  have hrows := h.within.rows
  refine h.judge _ ?_ c
  rw [Rect.mem_iff]
  simp only
  omega

/-! ### Passes -/

theorem trimBottom (h : g.Alike k m r) (c : Criterion) :
    Both (g.trimBottom c m r) (k.trimBottom c m r) r := by
  obtain ⟨e, f, he, hp⟩ := trimBottom_passed c m h.sized h.inRange h.within
  refine ⟨_, he, ?_, hp.within⟩
  have hrows := h.within.rows
  rw [← he, Grid.trimBottom, Grid.trimBottom,
    Sweep.up_congr _ _ r.y1 (by omega) fun _ h0 h1 => h.scanRow_eq c h0 h1]

theorem trimTop (h : g.Alike k m r) (c : Criterion) :
    Both (g.trimTop c m r) (k.trimTop c m r) r := by
  obtain ⟨e, f, he, hp⟩ := trimTop_passed c m h.sized h.inRange h.within
  refine ⟨_, he, ?_, hp.within⟩
  have hrows := h.within.rows
  rw [← he, Grid.trimTop, Grid.trimTop,
    Sweep.down_congr _ r.y0 _ (by omega) fun _ h0 h1 => h.scanRow_eq c h0 h1]

theorem trimLeft (h : g.Alike k m r) (c : Criterion) :
    Both (g.trimLeft c m r) (k.trimLeft c m r) r := by
  obtain ⟨e, f, he, hp⟩ := trimLeft_passed c m h.sized h.inRange h.within
  refine ⟨_, he, ?_, hp.within⟩
  have hcols := h.within.columns
  rw [← he, Grid.trimLeft, Grid.trimLeft,
    Sweep.up_congr _ _ r.x1 (by omega) fun _ h0 h1 => h.scanColumn_eq c h0 h1]

theorem trimRight (h : g.Alike k m r) (c : Criterion) :
    Both (g.trimRight c m r) (k.trimRight c m r) r := by
  obtain ⟨e, f, he, hp⟩ := trimRight_passed c m h.sized h.inRange h.within
  refine ⟨_, he, ?_, hp.within⟩
  have hcols := h.within.columns
  rw [← he, Grid.trimRight, Grid.trimRight,
    Sweep.down_congr _ r.x0 _ (by omega) fun _ h0 h1 => h.scanColumn_eq c h0 h1]

/-! ### Queries -/

theorem uncoveredBox (h : g.Alike k m r) : Both (g.uncoveredBox m r) (k.uncoveredBox m r) r := by
  obtain ⟨t₁, e₁, e₁', w₁⟩ := h.trimBottom .covered
  obtain ⟨t₂, e₂, e₂', w₂⟩ := (h.mono w₁).trimTop .covered
  have hrows := w₂.trans w₁
  by_cases he : t₂.rect.IsEmpty
  · refine ⟨⟨t₂.rect, t₁.reserved || t₂.reserved⟩, ?_, ?_, hrows⟩
    · simp only [Grid.uncoveredBox, h.within.subset, e₁, e₂, he, bind, Except.bind, pure,
        Except.pure, if_true]
    · simp only [Grid.uncoveredBox, h.within'.subset, e₁', e₂', he, bind, Except.bind, pure,
        Except.pure, if_true]
  · obtain ⟨t₃, e₃, e₃', w₃⟩ := (h.mono hrows).trimLeft .covered
    obtain ⟨t₄, e₄, e₄', w₄⟩ := (h.mono (w₃.trans hrows)).trimRight .covered
    refine ⟨⟨t₄.rect, t₁.reserved || t₂.reserved || t₃.reserved || t₄.reserved⟩, ?_, ?_,
      w₄.trans (w₃.trans hrows)⟩
    · simp only [Grid.uncoveredBox, h.within.subset, e₁, e₂, he, e₃, e₄, bind, Except.bind, pure,
        Except.pure, if_true, if_false]
    · simp only [Grid.uncoveredBox, h.within'.subset, e₁', e₂', he, e₃', e₄', bind, Except.bind,
        pure, Except.pure, if_true, if_false]

theorem peelSides (h : g.Alike k m r) : Both (g.peelSides m r) (k.peelSides m r) r := by
  by_cases hh : r.height = 0
  · have hself : r.Within r :=
      ⟨Int.le_refl _, h.within.columns, Int.le_refl _, Int.le_refl _, h.within.rows, Int.le_refl _⟩
    exact ⟨⟨r, false⟩, if_pos hh, if_pos hh, hself⟩
  · obtain ⟨t₁, e₁, e₁', w₁⟩ := h.trimLeft .pending
    obtain ⟨t₂, e₂, e₂', w₂⟩ := (h.mono w₁).trimRight .pending
    refine ⟨⟨t₂.rect, t₁.reserved || t₂.reserved⟩, ?_, ?_, w₂.trans w₁⟩
    · simp only [Grid.peelSides, hh, if_false, e₁, e₂, bind, Except.bind, pure, Except.pure]
    · simp only [Grid.peelSides, hh, if_false, e₁', e₂', bind, Except.bind, pure, Except.pure]

theorem peel_eq (h : g.Alike k m r) : g.peel m r = k.peel m r := by
  obtain ⟨t₁, e₁, e₁', w₁⟩ := h.trimBottom .pending
  obtain ⟨t₂, e₂, e₂', w₂⟩ := (h.mono w₁).trimTop .pending
  have hrows := w₂.trans w₁
  obtain ⟨t₃, e₃, e₃', w₃⟩ := (h.mono hrows).peelSides
  -- the last search is the one for the residual, in the interior that the others have left
  obtain ⟨t₄, e₄, e₄', w₄⟩ := (h.mono (w₃.trans hrows)).uncoveredBox
  simp only [peel, e₁, e₁', e₂, e₂', e₃, e₃', e₄, e₄', bind, Except.bind]

theorem workInside_eq (h : g.Alike k m r) (on : Bool) :
    g.workInside m on r = k.workInside m on r := by
  obtain ⟨t, et, et', w⟩ := h.uncoveredBox
  simp only [workInside, et, et', (h.mono w).peel_eq, bind, Except.bind]

theorem workList_eq (h : g.Alike k m r) (he : ¬ r.IsEmpty) (on : Bool) :
    g.workList m on r = k.workList m on r := by
  -- the bounds differ, but neither leaves any of the region outside
  have hg : r.outside g.bounds = [] := Rect.outside_of_subset h.within.normal h.within.subset
  have hk : r.outside k.bounds = [] := Rect.outside_of_subset h.within'.normal h.within'.subset
  simp only [workList, Rect.inter_eq_left h.within.subset he,
    Rect.inter_eq_left h.within'.subset he, h.workInside_eq, hg, hk]

end Alike

/-- Lines that are the same are entered alike, one by one. -/
theorem foldlM_congr {α β : Type} {step step' : β → α → Except Fault β} {l : List α}
    (h : ∀ a ∈ l, ∀ b, step b a = step' b a) (b : β) : l.foldlM step b = l.foldlM step' b := by
  induction l generalizing b with
  | nil => rfl
  | cons a l ih =>
    rw [List.foldlM_cons, List.foldlM_cons, h a List.mem_cons_self]
    exact congrArg _ (funext fun b' => ih (fun a' ha => h a' (List.mem_cons_of_mem a ha)) b')

/-- A census tells reserved pixels from unrendered ones, so it takes grids with equal states. -/
theorem census_congr (hg : g.Sized) (hk : k.Sized) (hr : r ⊆ g.bounds) (hr' : r ⊆ k.bounds)
    (h : ∀ p ∈ r, g.get? p = k.get? p) : g.census r = k.census r := by
  refine foldlM_congr (fun y hy census => ?_) _
  obtain ⟨l, hl, hlen, hval⟩ := row_of_hasRow hg (hasRow_of_subset hr hy)
  obtain ⟨l', hl', hlen', hval'⟩ := row_of_hasRow hk (hasRow_of_subset hr' hy)
  rw [Rect.mem_rows, Rect.isEmpty_iff] at hy
  have hsame : l.map id = l'.map id := by
    refine map_eq_map_of_get? hlen hlen' hval hval' fun i hi => congrArg _ (h _ ?_)
    rw [Rect.mem_iff]
    simp only
    omega
  rw [List.map_id, List.map_id] at hsame
  rw [hl, hl', hsame]

end Grid

/-! ## Maps -/

namespace CoverageMap

variable {m n : CoverageMap} {mode : Mode} {roi : Rect}

/-- Two maps give the same answers to the queries about a region. -/
structure SameAnswers (m n : CoverageMap) (mode : Mode) (roi : Rect) : Prop where
  uncoveredBox : m.uncoveredBox mode roi = n.uncoveredBox mode roi
  workList : m.workList mode roi = n.workList mode roi
  decompose : m.decompose mode roi = n.decompose mode roi

/-- A region inside the bounds is looked at as it is. -/
theorem inside_of_within (h : m.restriction = none) (hr : roi.Within m.bounds)
    (he : ¬ roi.IsEmpty) : m.inside roi = roi := by
  rw [inside, narrowed_of_eq_none h, Rect.inter_eq_left hr.subset he]

/-- **Answers depend on the pixels of their region.** -/
theorem sameAnswers_of_alike (h : m.grid.Alike n.grid mode roi) (he : ¬ roi.IsEmpty)
    (hm : m.restriction = none) (hn : n.restriction = none)
    (hb : m.config.decomposeBorders = n.config.decomposeBorders) : m.SameAnswers n mode roi := by
  have hview : m.view = .ok m.grid := Grid.checked_of_sized h.sized
  have hview' : n.view = .ok n.grid := Grid.checked_of_sized h.sized'
  have hin := inside_of_within hm h.within he
  have hin' := inside_of_within hn h.within' he
  obtain ⟨t, et, et', w⟩ := h.uncoveredBox
  refine ⟨?_, ?_, ?_⟩
  · simp only [uncoveredBox, hin, hin', he, if_false, hview, hview', bind, Except.bind, et, et']
  · simp only [workList, narrowed_of_eq_none hm, narrowed_of_eq_none hn, he, if_false, hview,
      hview', bind, Except.bind, hb, h.workList_eq he]
  · simp only [decompose, hin, hin', he, if_false, hview, hview', bind, Except.bind, et, et',
      (h.mono w).peel_eq]

/-- A census is the same where the states are. -/
theorem census_eq_of_get? (hm : m.grid.Sized) (hn : n.grid.Sized) (he : ¬ roi.IsEmpty)
    (hin : roi ⊆ m.bounds) (hin' : roi ⊆ n.bounds)
    (h : ∀ p ∈ roi, m.grid.get? p = n.grid.get? p) : m.census roi = n.census roi := by
  have hview : m.view = .ok m.grid := Grid.checked_of_sized hm
  have hview' : n.view = .ok n.grid := Grid.checked_of_sized hn
  simp only [census, hview, hview', Rect.inter_eq_left hin he, Rect.inter_eq_left hin' he, bind,
    Except.bind, Grid.census_congr hm hn hin hin' h]

end CoverageMap

end PixelCoverage
