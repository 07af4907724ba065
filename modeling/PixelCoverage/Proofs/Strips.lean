import PixelCoverage.Peel
import PixelCoverage.Proofs.UncoveredBox

/-!
# What the strips of a box are

The peel runs eight passes in two rounds. The first four are pending passes, and by
`isBox_of_passes` they leave the smallest box of the pixels that *block* a strip. That
is all there is to know about the interior, and the rest follows from it:

* the strips are pure work, because a blocking pixel lies in the interior, and the strips
  have no pixel in common with it;
* the strips are the widest possible, because the interior is the smallest possible;
* the residual is the uncovered box of the interior, and so the smallest box of the work
  in it.

That the parts tile the box is a fact about edges alone, proved first.
-/

namespace PixelCoverage

/-! ## Parts that tile -/

namespace Rect

theorem meets_iff {r s : Rect} : r.Meets s ↔ ∃ p, p ∈ r ∧ p ∈ s := by
  simp only [Meets, not_isEmpty_iff_exists_mem, mem_inter]

theorem not_meets_iff {r s : Rect} : ¬ r.Meets s ↔ ∀ p, p ∈ r → p ∉ s := by
  rw [meets_iff]
  exact ⟨fun h p hp hs => h ⟨p, hp, hs⟩, fun h ⟨p, hp, hs⟩ => h p hp hs⟩

/-- The empty ones of some rectangles can be left out. -/
theorem exists_mem_filter_iff {l : List Rect} {p : Pixel} :
    (∃ r ∈ l.filter fun r => ¬ r.IsEmpty, p ∈ r) ↔ ∃ r ∈ l, p ∈ r := by
  refine exists_congr fun r => ?_
  rw [List.mem_filter, decide_eq_true_eq, and_assoc]
  exact and_congr_right fun _ =>
    and_iff_right_of_imp fun hp => not_isEmpty_iff_exists_mem.mpr ⟨p, hp⟩

/-- Among rectangles of which no two meet, a pixel lies in one or in none. -/
theorem countP_mem_of_pairwise {l : List Rect} (h : l.Pairwise fun r s => ¬ r.Meets s)
    (p : Pixel) : l.countP (p ∈ ·) = if ∃ r ∈ l, p ∈ r then 1 else 0 := by
  induction l with
  | nil => simp
  | cons r l ih =>
    obtain ⟨hr, hl⟩ := List.pairwise_cons.mp h
    rw [List.countP_cons, ih hl]
    by_cases hp : p ∈ r
    · have hn : ¬ ∃ s ∈ l, p ∈ s := by
        intro hs
        obtain ⟨s, hs, hps⟩ := hs
        exact hr s hs (meets_iff.mpr ⟨p, hp, hps⟩)
      simp [hp, hn]
    · simp [hp]

end Rect

namespace Decomposition

/-- The strips and what they enclose. -/
def parts (d : Decomposition) : List Rect := d.strips ++ [d.interior]

variable {d : Decomposition}

theorem forall_mem_parts {P : Rect → Prop} : (∀ r ∈ d.parts, P r) ↔
    P d.bottom ∧ P d.top ∧ P d.left ∧ P d.right ∧ P d.interior := by
  simp only [parts, strips, List.cons_append, List.nil_append, List.forall_mem_cons,
    List.not_mem_nil, false_implies, implies_true, and_true]

/-- Parts that meet edge to edge do not overlap. -/
theorem Tiles.pairwise (h : d.Tiles) (hn : ∀ r ∈ d.parts, r.Normal) :
    d.parts.Pairwise fun r s => ¬ r.Meets s := by
  obtain ⟨hb, ht, hl, hr, hi⟩ := forall_mem_parts.mp hn
  obtain ⟨ha, hb', hc, hd⟩ := h
  simp only [Rect.Normal] at hb ht hl hr hi
  simp only [parts, strips, List.cons_append, List.nil_append, List.pairwise_cons,
    List.forall_mem_cons, List.not_mem_nil, false_implies, implies_true, and_true,
    List.Pairwise.nil, Rect.not_meets_iff]
  refine ⟨⟨?_, ?_, ?_, ?_⟩, ⟨?_, ?_, ?_⟩, ⟨?_, ?_⟩, ?_⟩
  all_goals
    intro p hp hp'
    rw [Rect.mem_iff] at hp hp'
    omega

/-- Parts that meet edge to edge leave no gap and do not stick out. -/
theorem Tiles.mem_bbox_iff (h : d.Tiles) (hn : ∀ r ∈ d.parts, r.Normal) {p : Pixel} :
    p ∈ d.bbox ↔ ∃ r ∈ d.parts, p ∈ r := by
  obtain ⟨hb, ht, hl, hr, hi⟩ := forall_mem_parts.mp hn
  obtain ⟨ha, hb', hc, hd⟩ := h
  simp only [Rect.Normal] at hb ht hl hr hi
  simp only [parts, strips, List.cons_append, List.nil_append, List.mem_cons, List.not_mem_nil,
    or_false, exists_eq_or_imp, exists_eq_left, Rect.mem_iff]
  omega

/-- **The tiling equations mean a tiling.** -/
theorem Tiles.countP_mem (h : d.Tiles) (hn : ∀ r ∈ d.parts, r.Normal) (p : Pixel) :
    d.parts.countP (p ∈ ·) = if p ∈ d.bbox then 1 else 0 := by
  rw [Rect.countP_mem_of_pairwise (h.pairwise hn)]
  simp only [h.mem_bbox_iff hn]

end Decomposition

/-! ## The peel -/

namespace Grid

variable {g : Grid} {m : Mode} {bbox : Rect}

/-- What the peel of `bbox` is, without the passes that find it. -/
structure Peeled (g : Grid) (m : Mode) (bbox : Rect) (d : Decomposition) : Prop where
  bbox_eq : d.bbox = bbox
  within : d.interior.Within bbox
  tiles : d.Tiles
  normal : ∀ r ∈ d.parts, r.Normal
  interior : d.interior.IsBox (fun p => p ∈ bbox ∧ g.Blocks m p)
  residual : d.residual.IsBox (fun p => p ∈ d.interior ∧ g.Needs m p)
  residual_within : d.residual.Within d.interior
  /-- A reserved pixel that the residual leaves out is told of. -/
  tells : ∀ p ∈ d.interior, p ∉ d.residual → g.get? p = some .reserved →
    d.reservedElsewhere = true
  /-- Nothing is told of but a reserved pixel that is left to its holder. -/
  told : d.reservedElsewhere = true →
    ∃ p ∈ bbox, g.get? p = some .reserved ∧ ¬ m.Needs .reserved

/-- The side passes finish the box of what blocks, also when they need not be run. -/
theorem peelSides_isBox {y0 y1 : Int} {f₁ f₂ : Bool} (hg : g.Sized) (hb : g.bounds.InRange)
    (hr : bbox.Within g.bounds)
    (p₁ : g.Passed .pending m bbox ⟨⟨bbox.x0, y0, bbox.x1, bbox.y1⟩, f₁⟩ Pixel.y y0
      (y0 < bbox.y1))
    (p₂ : g.Passed .pending m ⟨bbox.x0, y0, bbox.x1, bbox.y1⟩ ⟨⟨bbox.x0, y0, bbox.x1, y1⟩, f₂⟩
      Pixel.y (y1 - 1) (y0 < y1)) :
    ∃ x0 x1 f, g.peelSides m ⟨bbox.x0, y0, bbox.x1, y1⟩ = .ok ⟨⟨x0, y0, x1, y1⟩, f⟩ ∧
      Rect.Within ⟨x0, y0, x1, y1⟩ bbox ∧
      Rect.IsBox ⟨x0, y0, x1, y1⟩ (fun p => p ∈ bbox ∧ g.Blocks m p) ∧
      (f = true → ∃ p ∈ bbox, g.get? p = some .reserved ∧ ¬ m.Needs .reserved) := by
  have w := p₂.within.trans p₁.within
  have w₂ := w.trans hr
  by_cases hh : Rect.height ⟨bbox.x0, y0, bbox.x1, y1⟩ = 0
  · refine ⟨bbox.x0, bbox.x1, false, ?_, w, isBox_of_rows p₁ p₂ ?_, by simp⟩
    · rw [peelSides, if_pos hh]
      rfl
    · simp only [Rect.height] at hh
      exact Or.inr (by simp only; omega)
  · obtain ⟨x0, f₃, e₃, p₃⟩ := trimLeft_passed .pending m hg hb w₂
    have w₃ := p₃.within.trans w₂
    obtain ⟨x1, f₄, e₄, p₄⟩ := trimRight_passed .pending m hg hb w₃
    have w₄ := (p₄.within.trans p₃.within).trans w
    refine ⟨x0, x1, f₃ || f₄, ?_, w₄, isBox_of_passes p₁ p₂ p₃ p₄, ?_⟩
    · simp only [peelSides, hh, if_false, e₃, e₄, bind, Except.bind, pure, Except.pure]
    · intro hf
      rcases Bool.or_eq_true _ _ ▸ hf with h | h
      · obtain ⟨p, hp, hres⟩ := p₃.pending rfl h
        exact ⟨p, (p₃.within.trans w).mem hp, hres⟩
      · obtain ⟨p, hp, hres⟩ := p₄.pending rfl h
        exact ⟨p, w₄.mem hp, hres⟩

/-- **The peel.** It always succeeds, the check that its parts tile the box included. -/
theorem peel_peeled (m : Mode) (hg : g.Sized) (hb : g.bounds.InRange)
    (hr : bbox.Within g.bounds) : ∃ d, g.peel m bbox = .ok d ∧ g.Peeled m bbox d := by
  obtain ⟨y0, f₁, e₁, p₁⟩ := trimBottom_passed .pending m hg hb hr
  have w₁ := p₁.within.trans hr
  obtain ⟨y1, f₂, e₂, p₂⟩ := trimTop_passed .pending m hg hb w₁
  obtain ⟨x0, x1, f₃, e₃, w, hbox, htold⟩ := peelSides_isBox hg hb hr p₁ p₂
  obtain ⟨t, e₄, ht⟩ := uncoveredBox_boxed m hg hb (w.trans hr)
  have hw := w
  obtain ⟨h1, h2, h3, h4, h5, h6⟩ := w
  have hc := hr.columns
  simp only at h1 h2 h3 h4 h5 h6
  -- the strips as they are written, with their edges in order
  have hbot := Rect.ofEdges_eq_of_le hc h4
  have htop := Rect.ofEdges_eq_of_le hc h6
  have hleft := Rect.ofEdges_eq_of_le h1 h5
  have hright := Rect.ofEdges_eq_of_le h3 h5
  let d : Decomposition :=
    { bbox
      bottom := ⟨bbox.x0, bbox.y0, bbox.x1, y0⟩
      top := ⟨bbox.x0, y1, bbox.x1, bbox.y1⟩
      left := ⟨bbox.x0, y0, x0, y1⟩
      right := ⟨x1, y0, bbox.x1, y1⟩
      interior := ⟨x0, y0, x1, y1⟩
      residual := t.rect
      reservedElsewhere := f₁ || f₂ || f₃ || t.reserved }
  have htiles : d.Tiles := ⟨⟨rfl, rfl, rfl, rfl⟩, ⟨rfl, rfl, rfl, rfl⟩, ⟨rfl, rfl, rfl, rfl⟩,
    ⟨rfl, rfl, rfl, rfl⟩⟩
  have hpeel : g.peel m bbox = .ok d := by
    simp only [peel, e₁, e₂, e₃, e₄, hbot, htop, hleft, hright, bind, Except.bind, pure,
      Except.pure]
    exact if_pos htiles
  refine ⟨d, hpeel, rfl, hw, htiles, ?_, hbox, ht.isBox, ht.within, ?_, ?_⟩
  · exact Decomposition.forall_mem_parts.mpr ⟨⟨hc, h4⟩, ⟨hc, h6⟩, ⟨h1, h5⟩, ⟨h3, h5⟩, ⟨h2, h5⟩⟩
  · intro p hp hout hres
    have := ht.reserved.mpr ⟨p, hp, hout, hres⟩
    simp only [d, this, Bool.or_true]
  · intro hf
    simp only [d, Bool.or_eq_true] at hf
    rcases hf with ((h | h) | h) | h
    · obtain ⟨p, hp, hres⟩ := p₁.pending rfl h
      exact ⟨p, p₁.within.mem hp, hres⟩
    · obtain ⟨p, hp, hres⟩ := p₂.pending rfl h
      exact ⟨p, (p₂.within.trans p₁.within).mem hp, hres⟩
    · exact htold h
    · -- the residual holds all work, so what it leaves out is left to its holder
      obtain ⟨p, hp, hout, hres⟩ := ht.reserved.mp h
      exact ⟨p, hw.mem hp, hres, fun hn => hout (ht.isBox.holds p ⟨hp, _, hres, hn⟩)⟩

/-- **Strips are pure work.** -/
theorem Peeled.needs_of_mem_strips {d : Decomposition} (h : g.Peeled m bbox d) (hg : g.Sized)
    (hr : bbox.Within g.bounds) : ∀ r ∈ d.strips, ∀ p ∈ r, g.Needs m p := by
  intro r hrs p hp
  have hpb : p ∈ bbox := by
    rw [← h.bbox_eq, h.tiles.mem_bbox_iff h.normal]
    exact ⟨r, List.mem_append_left _ hrs, hp⟩
  rcases needs_or_blocks (m := m) hg (hr.mem hpb) with hn | hn
  · exact hn
  · -- a blocking pixel would lie in the interior as well
    have hpw := List.pairwise_append.mp (h.tiles.pairwise h.normal)
    exact absurd (Rect.meets_iff.mpr ⟨p, hp, h.interior.holds p ⟨hpb, hn⟩⟩)
      (hpw.2.2 r hrs d.interior List.mem_cons_self)

end Grid

end PixelCoverage
