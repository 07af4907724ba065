import Mathlib.Data.List.Forall2
import PixelCoverage.Proofs.Work

/-!
# The bands hold what lies outside

A pixel outside some bounds is to the left of them, below, to the right or above. Past a corner
two of these are true, and there it counts as below or above. Read like this, a pixel outside
bounds whose edges are in order is on exactly one side of them.

The bands of a region are cut along edges of the bounds, pressed into the region. However the two
lie to each other, each band holds the pixels of the region on one side. So the bands hold what
lies outside because every pixel outside is on a side, and no two of them meet because it is on
no other.
-/

namespace PixelCoverage

/-! ## Sides -/

/-- A side of some bounds. -/
inductive Side where
  | left
  | bottom
  | right
  | top
deriving DecidableEq, Repr

namespace Side

variable {bounds : Rect} {side other : Side} {p : Pixel}

/-- All sides, in the order in which bands are listed. -/
def all : List Side := [left, bottom, right, top]

theorem mem_all (side : Side) : side ∈ all := by cases side <;> decide

/-- The pixel is on this side of the bounds. To the left and to the right of them are only the
rows that they have. -/
def Has (bounds : Rect) (p : Pixel) : Side → Prop
  | left => p.x < bounds.x0 ∧ bounds.y0 ≤ p.y ∧ p.y < bounds.y1
  | bottom => p.y < bounds.y0
  | right => bounds.x1 ≤ p.x ∧ bounds.y0 ≤ p.y ∧ p.y < bounds.y1
  | top => bounds.y1 ≤ p.y

/-- Outside the bounds is what is on one of their sides. -/
theorem exists_has_iff (hb : bounds.Normal) :
    (∃ side : Side, side.Has bounds p) ↔ p ∉ bounds := by
  obtain ⟨hx, hy⟩ := hb
  rw [Rect.mem_iff]
  constructor
  · intro h
    obtain ⟨side, h⟩ := h
    cases side <;> simp only [Has] at h <;> omega
  · intro hout
    rcases Int.lt_or_le p.y bounds.y0 with below | hlow
    · exact ⟨bottom, below⟩
    rcases Int.lt_or_le p.y bounds.y1 with hhigh | above
    · rcases Int.lt_or_le p.x bounds.x0 with before | after
      · exact ⟨left, before, hlow, hhigh⟩
      · exact ⟨right, by omega, hlow, hhigh⟩
    · exact ⟨top, above⟩

/-- No pixel is on two sides. -/
theorem Has.unique (hb : bounds.Normal) (h : side.Has bounds p) (h' : other.Has bounds p) :
    side = other := by
  obtain ⟨hx, hy⟩ := hb
  cases side <;> cases other <;> first | rfl | (simp only [Has] at h h'; omega)

end Side

namespace Rect

variable {roi bounds r : Rect} {side : Side} {p : Pixel}

/-! ## One band -/

/-- The band on one side, before the empty ones are left out. -/
def band (roi bounds : Rect) (side : Side) : Rect :=
  let low := min (max roi.y0 bounds.y0) roi.y1
  let high := max (min roi.y1 bounds.y1) low
  match side with
  | .left => ofEdges roi.x0 low (min bounds.x0 roi.x1) high
  | .bottom => ofEdges roi.x0 roi.y0 roi.x1 (min bounds.y0 roi.y1)
  | .right => ofEdges (max bounds.x1 roi.x0) low roi.x1 high
  | .top => ofEdges roi.x0 (max bounds.y1 roi.y0) roi.x1 roi.y1

theorem outside_of_isEmpty (h : roi.IsEmpty) : roi.outside bounds = [] := if_pos h

theorem outside_of_not_isEmpty (h : ¬ roi.IsEmpty) :
    roi.outside bounds = (Side.all.map (roi.band bounds)).filter fun r => ¬ r.IsEmpty := if_neg h

/-- `r` is the part of the region that is on this side of the bounds. -/
def IsBand (roi bounds : Rect) (side : Side) (r : Rect) : Prop :=
  ∀ p, p ∈ r ↔ p ∈ roi ∧ side.Has bounds p

/-- **A band holds what is on its side,** wherever the region lies. -/
theorem isBand_band (h : ¬ roi.IsEmpty) (side : Side) :
    roi.IsBand bounds side (roi.band bounds side) := by
  intro p
  rw [isEmpty_iff] at h
  rw [mem_iff (r := roi)]
  cases side <;> simp only [band, mem_ofEdges, Side.Has] <;> omega

/-! ## All bands -/

theorem not_isEmpty_of_mem_outside (h : r ∈ roi.outside bounds) : ¬ r.IsEmpty := by
  unfold outside at h
  split at h
  · exact absurd h List.not_mem_nil
  · exact of_decide_eq_true (List.mem_filter.mp h).2

theorem length_outside_le (roi bounds : Rect) : (roi.outside bounds).length ≤ 4 := by
  unfold outside
  split
  · exact Nat.zero_le 4
  · exact List.length_filter_le _ _

/-- The bands stand in the order of the sides, and a side without a pixel has none. -/
theorem forall₂_outside (roi bounds : Rect) :
    ∃ sides, sides.Sublist Side.all ∧
      List.Forall₂ (roi.IsBand bounds) sides (roi.outside bounds) := by
  by_cases he : roi.IsEmpty
  · rw [outside_of_isEmpty he]
    exact ⟨[], List.nil_sublist _, .nil⟩
  · rw [outside_of_not_isEmpty he, List.filter_map]
    refine ⟨_, List.filter_sublist, List.forall₂_map_right_iff.mpr (List.forall₂_same.mpr ?_)⟩
    intro side _
    exact isBand_band he side

/-- **The bands hold exactly what lies outside.** -/
theorem mem_outside_iff (hb : bounds.Normal) :
    (∃ r ∈ roi.outside bounds, p ∈ r) ↔ p ∈ roi ∧ p ∉ bounds := by
  by_cases he : roi.IsEmpty
  · rw [outside_of_isEmpty he]
    refine iff_of_false (by simp) fun h => ?_
    exact isEmpty_iff_forall_not_mem.mp he p h.1
  · rw [outside_of_not_isEmpty he, exists_mem_filter_iff, ← Side.exists_has_iff hb]
    constructor
    · intro h
      obtain ⟨r, hr, hp⟩ := h
      obtain ⟨side, _, rfl⟩ := List.mem_map.mp hr
      obtain ⟨hroi, hside⟩ := (isBand_band he side p).mp hp
      exact ⟨hroi, side, hside⟩
    · intro h
      obtain ⟨hroi, side, hside⟩ := h
      exact ⟨_, List.mem_map_of_mem (Side.mem_all side), (isBand_band he side p).mpr ⟨hroi, hside⟩⟩

theorem not_meets_of_mem_outside (hb : bounds.Normal) (h : r ∈ roi.outside bounds) :
    ¬ r.Meets bounds := by
  rw [not_meets_iff]
  intro p hp
  exact ((mem_outside_iff hb).mp ⟨r, h, hp⟩).2

/-- A band has a pixel, and that lies outside. -/
theorem not_subset_of_mem_outside (hb : bounds.Normal) (h : r ∈ roi.outside bounds) :
    ¬ r ⊆ bounds := by
  intro hsub
  obtain ⟨p, hp⟩ := not_isEmpty_iff_exists_mem.mp (not_isEmpty_of_mem_outside h)
  exact ((mem_outside_iff hb).mp ⟨r, h, hp⟩).2 (mem_of_subset hsub hp)

/-- There are no bands around what lies in the bounds, and only then. -/
theorem outside_eq_nil_iff (hb : bounds.Normal) :
    roi.outside bounds = [] ↔ ∀ p ∈ roi, p ∈ bounds := by
  rw [List.eq_nil_iff_forall_not_mem]
  refine ⟨fun hnil p hp => ?_, fun hall r hr => ?_⟩
  · rcases Classical.em (p ∈ bounds) with hin | hout
    · exact hin
    · obtain ⟨r, hr, _⟩ := (mem_outside_iff hb).mpr ⟨hp, hout⟩
      exact absurd hr (hnil r)
  · refine not_subset_of_mem_outside hb hr (subset_iff.mpr fun p hp => hall p ?_)
    exact ((mem_outside_iff hb).mp ⟨r, hr, hp⟩).1

/-- No two bands meet. -/
theorem outside_pairwise (hb : bounds.Normal) :
    (roi.outside bounds).Pairwise fun r s => ¬ r.Meets s := by
  by_cases he : roi.IsEmpty
  · rw [outside_of_isEmpty he]
    exact List.Pairwise.nil
  · rw [outside_of_not_isEmpty he]
    refine List.Pairwise.filter _ (List.pairwise_map.mpr ?_)
    have hdistinct : Side.all.Pairwise (· ≠ ·) := by decide
    refine hdistinct.imp fun hne => not_meets_iff.mpr fun p hp hq => ?_
    have hside := ((isBand_band he _ p).mp hp).2
    exact hne (hside.unique hb ((isBand_band he _ p).mp hq).2)

/-! ## The bands of a work list -/

/-- Some rectangles are the bands of a region outside some bounds. -/
structure Bands (roi bounds : Rect) (bands : List Rect) : Prop where
  nonempty : ∀ r ∈ bands, ¬ r.IsEmpty
  short : bands.length ≤ 4
  apart : bands.Pairwise fun r s => ¬ r.Meets s
  /-- Left, bottom, right, top, as far as there are any. -/
  ordered : ∃ sides, sides.Sublist [.left, .bottom, .right, .top] ∧
    List.Forall₂ (roi.IsBand bounds) sides bands
  exactly : ∀ p, (∃ r ∈ bands, p ∈ r) ↔ p ∈ roi ∧ p ∉ bounds

/-- **The bands tile what lies outside the bounds,** and the work list of a region begins with
them. -/
theorem outside_tiles (hb : bounds.Normal) (roi : Rect) :
    roi.Bands bounds (roi.outside bounds) ∧
      ∀ g : Grid, g.bounds = bounds → g.Sized → bounds.InRange → ∀ mode on, ∃ w rest,
        g.workList mode on roi = .ok w ∧ w.rects = roi.outside bounds ++ rest ∧
          ∀ r ∈ rest, r ⊆ bounds := by
  refine ⟨?_, ?_⟩
  · exact
      { nonempty := fun r hr => not_isEmpty_of_mem_outside hr
        short := length_outside_le roi bounds
        apart := outside_pairwise hb
        ordered := forall₂_outside roi bounds
        exactly := fun p => mem_outside_iff hb }
  · intro g hg hs hr mode on
    subst hg
    obtain ⟨inside, hi, hw⟩ := Grid.workInside_worked mode on roi hs hr
    refine ⟨⟨roi.outside g.bounds ++ inside.rects, inside.reservedElsewhere⟩, inside.rects, ?_,
      rfl, ?_⟩
    · rw [Grid.workList, hi]
      rfl
    · intro r hr
      exact subset_trans (hw.within r hr) (inter_subset_right roi g.bounds)

/-- All coordinates that there are, around two pixels of which one is left to compute. -/
theorem outside_tiles_two :
    Normal ⟨0, 0, 2, 1⟩ ∧
      Bands ⟨minCoord, minCoord, maxCoord, maxCoord⟩ ⟨0, 0, 2, 1⟩
        [⟨minCoord, 0, 0, 1⟩, ⟨minCoord, minCoord, maxCoord, 0⟩, ⟨2, 0, maxCoord, 1⟩,
          ⟨minCoord, 1, maxCoord, maxCoord⟩] ∧
      ∃ w rest, Grid.workList ⟨⟨0, 0, 2, 1⟩, #[.unrendered, .available]⟩ .trimap true
          ⟨minCoord, minCoord, maxCoord, maxCoord⟩ = .ok w ∧
        w.rects = [⟨minCoord, 0, 0, 1⟩, ⟨minCoord, minCoord, maxCoord, 0⟩, ⟨2, 0, maxCoord, 1⟩,
          ⟨minCoord, 1, maxCoord, maxCoord⟩] ++ rest ∧
        rest = [⟨0, 0, 1, 1⟩] ∧ ∀ r ∈ rest, r ⊆ ⟨0, 0, 2, 1⟩ := by
  have hb : Normal ⟨0, 0, 2, 1⟩ := by decide
  have hout : outside ⟨minCoord, minCoord, maxCoord, maxCoord⟩ ⟨0, 0, 2, 1⟩ =
      [⟨minCoord, 0, 0, 1⟩, ⟨minCoord, minCoord, maxCoord, 0⟩, ⟨2, 0, maxCoord, 1⟩,
        ⟨minCoord, 1, maxCoord, maxCoord⟩] := by decide
  obtain ⟨hbands, hlist⟩ := outside_tiles hb ⟨minCoord, minCoord, maxCoord, maxCoord⟩
  obtain ⟨w, rest, hw, hrects, hrest⟩ := hlist ⟨⟨0, 0, 2, 1⟩, #[.unrendered, .available]⟩ rfl rfl
    (by decide) .trimap true
  rw [hout] at hbands hrects
  refine ⟨hb, hbands, w, rest, hw, hrects, ?_, hrest⟩
  have he : Grid.workList ⟨⟨0, 0, 2, 1⟩, #[.unrendered, .available]⟩ .trimap true
      ⟨minCoord, minCoord, maxCoord, maxCoord⟩ =
      .ok ⟨[⟨minCoord, 0, 0, 1⟩, ⟨minCoord, minCoord, maxCoord, 0⟩, ⟨2, 0, maxCoord, 1⟩,
        ⟨minCoord, 1, maxCoord, maxCoord⟩] ++ [⟨0, 0, 1, 1⟩], false⟩ := by cbv
  rw [he] at hw
  cases hw
  exact (List.append_cancel_left hrects).symm

end Rect

end PixelCoverage
