import PixelCoverage.Proofs.Pass

/-!
# The uncovered box is the smallest there is

Four covered passes leave the smallest rectangle around the work in a region, and their
flag tells exactly of the reserved pixels that they have cut off. Both follow from what
a single pass does; what is added here is that the passes can be run at all, and that
nothing is lost when the columns are not looked at.
-/

namespace PixelCoverage.Grid

variable {g : Grid} {m : Mode} {r : Rect}

/-- What the uncovered box of `r` is, without the passes that find it. -/
structure Boxed (g : Grid) (m : Mode) (r : Rect) (t : Trimmed) : Prop where
  within : t.rect.Within r
  isBox : t.rect.IsBox (fun p => p ∈ r ∧ g.Needs m p)
  reserved : t.reserved = true ↔ ∃ p ∈ r, p ∉ t.rect ∧ g.get? p = some .reserved

/-- The flags of two passes, one after the other, tell of what both have cut off. -/
theorem reserved_or_iff {s t u : Rect} {f k : Bool} {P : Pixel → Prop} (hst : t ⊆ s)
    (hf : f = true ↔ ∃ p ∈ s, p ∉ t ∧ P p) (hk : k = true ↔ ∃ p ∈ t, p ∉ u ∧ P p)
    (htu : u ⊆ t) : (f || k) = true ↔ ∃ p ∈ s, p ∉ u ∧ P p := by
  rw [Bool.or_eq_true, hf, hk]
  refine ⟨?_, ?_⟩
  · intro h
    rcases h with ⟨p, hp, hout, h⟩ | ⟨p, hp, hout, h⟩
    · exact ⟨p, hp, fun hu => hout (Rect.mem_of_subset htu hu), h⟩
    · exact ⟨p, Rect.mem_of_subset hst hp, hout, h⟩
  · intro h
    obtain ⟨p, hp, hout, h⟩ := h
    rcases Classical.em (p ∈ t) with ht | ht
    · exact Or.inr ⟨p, ht, hout, h⟩
    · exact Or.inl ⟨p, hp, ht, h⟩

/-- **The uncovered box.** It is always found, and it is the smallest box of the work. -/
theorem uncoveredBox_boxed (m : Mode) (hg : g.Sized) (hb : g.bounds.InRange)
    (hr : r.Within g.bounds) : ∃ t, g.uncoveredBox m r = .ok t ∧ g.Boxed m r t := by
  obtain ⟨y0, f₁, e₁, p₁⟩ := trimBottom_passed .covered m hg hb hr
  have w₁ := p₁.within.trans hr
  obtain ⟨y1, f₂, e₂, p₂⟩ := trimTop_passed .covered m hg hb w₁
  have w₂ := p₂.within.trans w₁
  have hrows := reserved_or_iff p₁.within.subset (p₁.covered rfl) (p₂.covered rfl)
    p₂.within.subset
  by_cases he : Rect.IsEmpty ⟨r.x0, y0, r.x1, y1⟩
  · refine ⟨⟨⟨r.x0, y0, r.x1, y1⟩, f₁ || f₂⟩, ?_, p₂.within.trans p₁.within, ?_, hrows⟩
    · simp only [uncoveredBox, hr.subset, e₁, e₂, he, bind, Except.bind, pure, Except.pure,
        if_true]
    · exact isBox_of_rows p₁ p₂ he
  · obtain ⟨x0, f₃, e₃, p₃⟩ := trimLeft_passed .covered m hg hb w₂
    have w₃ := p₃.within.trans w₂
    obtain ⟨x1, f₄, e₄, p₄⟩ := trimRight_passed .covered m hg hb w₃
    have hleft := reserved_or_iff (p₂.within.trans p₁.within).subset hrows (p₃.covered rfl)
      p₃.within.subset
    have hright := reserved_or_iff (p₃.within.trans (p₂.within.trans p₁.within)).subset hleft
      (p₄.covered rfl) p₄.within.subset
    refine ⟨⟨⟨x0, y0, x1, y1⟩, f₁ || f₂ || f₃ || f₄⟩, ?_, ?_, isBox_of_passes p₁ p₂ p₃ p₄,
      hright⟩
    · simp only [uncoveredBox, hr.subset, e₁, e₂, he, e₃, e₄, bind, Except.bind, pure,
        Except.pure, if_true, if_false]
    · exact p₄.within.trans (p₃.within.trans (p₂.within.trans p₁.within))

end PixelCoverage.Grid
