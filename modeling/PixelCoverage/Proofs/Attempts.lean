import PixelCoverage.Proofs.History

/-!
# The form that tries and the plain form

Writes and copies come in two forms, and each of the four checks for itself what it is asked for.
The plain copy looks at both bounds in one condition, the one that tries looks at one after the
other, so as to say whose bounds are left.

The two forms still refuse the same. What is refused is told once and for all by `WriteRefused` and
`CopyRefused`, which speak of pixels and not of edges. An answer that is no refusal is the plain
change itself. The bounds are asked first, so whoever is told that there are no reservations knows
that the rectangle lies inside, and an empty rectangle is never told anything else.
-/

namespace PixelCoverage

open Update

/-- A rectangle leaves the bounds exactly with one of its pixels. -/
theorem Rect.not_subset_iff {r s : Rect} : ¬ r ⊆ s ↔ ∃ p, p ∈ r ∧ p ∉ s := by
  rw [subset_iff]
  constructor
  · intro h
    obtain ⟨p, hp⟩ := Classical.not_forall.mp h
    exact ⟨p, Classical.not_imp.mp hp⟩
  · intro h hsub
    obtain ⟨p, hp, hout⟩ := h
    exact hout (hsub p hp)

namespace CoverageMap

variable {m n source : CoverageMap} {rect : Rect} {st : PixelState} {e : WriteError} {f : Fault}

/-! ## What is refused -/

/-- Why a write of `st` into `rect` is refused. -/
inductive WriteRefused (m : CoverageMap) (rect : Rect) (st : PixelState) : WriteError → Prop where
  | outOfBounds {p : Pixel} (inside : p ∈ rect) (outside : p ∉ m.bounds) :
      WriteRefused m rect st (.outOfBounds rect m.bounds)
  | reservationsDisabled (inside : ∀ p ∈ rect, p ∈ m.bounds) (reserved : st = .reserved)
      (off : m.config.reservations = false) : WriteRefused m rect st .reservationsDisabled

/-- Why a copy of `rect` from `source` is refused. The bounds of the source only matter where the
map's own bounds are kept. -/
inductive CopyRefused (m source : CoverageMap) (rect : Rect) : WriteError → Prop where
  | target {p : Pixel} (inside : p ∈ rect) (outside : p ∉ m.bounds) :
      CopyRefused m source rect (.outOfBounds rect m.bounds)
  | source {p : Pixel} (within : ∀ q ∈ rect, q ∈ m.bounds) (inside : p ∈ rect)
      (outside : p ∉ source.bounds) : CopyRefused m source rect (.outOfBounds rect source.bounds)

theorem writeRefused_iff_of_not_subset (hsub : ¬ rect ⊆ m.bounds) :
    WriteRefused m rect st e ↔ e = .outOfBounds rect m.bounds := by
  constructor
  · intro h
    cases h with
    | outOfBounds _ _ => rfl
    | reservationsDisabled inside _ _ => exact absurd (Rect.subset_iff.mpr inside) hsub
  · rintro rfl
    obtain ⟨p, hp, hout⟩ := Rect.not_subset_iff.mp hsub
    exact .outOfBounds hp hout

theorem writeRefused_iff_of_not_accepts (hsub : rect ⊆ m.bounds) (ha : ¬ m.config.Accepts st) :
    WriteRefused m rect st e ↔ e = .reservationsDisabled := by
  constructor
  · intro h
    cases h with
    | outOfBounds hp hout => exact absurd (Rect.mem_of_subset hsub hp) hout
    | reservationsDisabled _ _ _ => rfl
  · rintro rfl
    obtain ⟨hreserved, hoff⟩ := Classical.not_imp.mp ha
    exact .reservationsDisabled (Rect.subset_iff.mp hsub) hreserved (Bool.eq_false_iff.mpr hoff)

theorem not_writeRefused (hsub : rect ⊆ m.bounds) (ha : m.config.Accepts st) :
    ¬ WriteRefused m rect st e := by
  intro h
  cases h with
  | outOfBounds hp hout => exact hout (Rect.mem_of_subset hsub hp)
  | reservationsDisabled _ hreserved hoff => exact Bool.eq_false_iff.mp hoff (ha hreserved)

theorem copyRefused_iff_of_not_subset (hsub : ¬ rect ⊆ m.bounds) :
    CopyRefused m source rect e ↔ e = .outOfBounds rect m.bounds := by
  constructor
  · intro h
    cases h with
    | target _ _ => rfl
    | source within _ _ => exact absurd (Rect.subset_iff.mpr within) hsub
  · rintro rfl
    obtain ⟨p, hp, hout⟩ := Rect.not_subset_iff.mp hsub
    exact .target hp hout

theorem copyRefused_iff_of_source_not_subset (hsub : rect ⊆ m.bounds)
    (hsub' : ¬ rect ⊆ source.bounds) :
    CopyRefused m source rect e ↔ e = .outOfBounds rect source.bounds := by
  constructor
  · intro h
    cases h with
    | target hp hout => exact absurd (Rect.mem_of_subset hsub hp) hout
    | source _ _ _ => rfl
  · rintro rfl
    obtain ⟨p, hp, hout⟩ := Rect.not_subset_iff.mp hsub'
    exact .source (Rect.subset_iff.mp hsub) hp hout

theorem not_copyRefused (hsub : rect ⊆ m.bounds) (hsub' : rect ⊆ source.bounds) :
    ¬ CopyRefused m source rect e := by
  intro h
  cases h with
  | target hp hout => exact hout (Rect.mem_of_subset hsub hp)
  | source _ hp hout => exact hout (Rect.mem_of_subset hsub' hp)

/-! ## Two forms of one change -/

/-- On the map `m` the change `tries` answers with what `Refused` says, where `plain` ends in a
fault, and does what `plain` does everywhere else. -/
structure TriesAs (m : CoverageMap) (tries : Update CoverageMap (Except WriteError Unit))
    (plain : Update CoverageMap Unit) (Refused : WriteError → Prop) : Prop where
  /-- To try never ends in a fault. -/
  answers : ∃ answer n, tries m = .ok answer n
  refused_iff : (∃ e n, tries m = .ok (.error e) n) ↔ ∃ f n, plain m = .error f n
  refused : ∀ e n, tries m = .ok (.error e) n ↔ n = m ∧ Refused e
  made : ∀ n, tries m = .ok (.ok ()) n ↔ plain m = .ok () n
  /-- The fault of the plain form comes before the first pixel is changed. -/
  spared : ∀ f n, plain m = .error f n → n = m

section TriesAs

variable {tries : Update CoverageMap (Except WriteError Unit)} {plain : Update CoverageMap Unit}
  {Refused : WriteError → Prop}

theorem triesAs_of_made (htries : tries m = .ok (.ok ()) n) (hplain : plain m = .ok () n)
    (hno : ∀ e, ¬ Refused e) : m.TriesAs tries plain Refused where
  answers := ⟨_, _, htries⟩
  refused_iff := by
    rw [htries, hplain]
    exact iff_of_false (fun ⟨_, _, h⟩ => nomatch h) (fun ⟨_, _, h⟩ => nomatch h)
  refused e k := by
    rw [htries]
    exact iff_of_false (fun h => nomatch h) (fun h => hno e h.2)
  made k := by
    rw [htries, hplain]
    simp only [EStateM.Result.ok.injEq, true_and]
  spared g k h := by
    rw [hplain] at h
    cases h

theorem triesAs_of_refused (htries : tries m = .ok (.error e) m) (hplain : plain m = .error f m)
    (hrefused : ∀ {e'}, Refused e' ↔ e' = e) : m.TriesAs tries plain Refused where
  answers := ⟨_, _, htries⟩
  refused_iff := iff_of_true ⟨_, _, htries⟩ ⟨_, _, hplain⟩
  refused e' k := by
    rw [htries, hrefused]
    constructor
    · intro h
      cases h
      exact ⟨rfl, rfl⟩
    · rintro ⟨rfl, rfl⟩
      rfl
  made k := by
    rw [htries, hplain]
    exact iff_of_false (fun h => nomatch h) (fun h => nomatch h)
  spared g k h := by
    rw [hplain] at h
    cases h
    rfl

end TriesAs

theorem tryWrite_triesAs (hs : m.grid.Sized) (rect : Rect) (st : PixelState) :
    m.TriesAs (tryWrite rect st) (write rect st) (WriteRefused m rect st) := by
  by_cases hsub : rect ⊆ m.bounds
  · by_cases ha : m.config.Accepts st
    · obtain ⟨g, hwrite, _⟩ := write_of_accepts hs hsub ha
      exact triesAs_of_made (tryWrite_of_ok hwrite) hwrite fun _ => not_writeRefused hsub ha
    · exact triesAs_of_refused (tryWrite_of_not_accepts hsub ha) (write_of_not_accepts hsub ha)
        (writeRefused_iff_of_not_accepts hsub ha)
  · exact triesAs_of_refused (tryWrite_of_not_subset hsub) (write_of_not_subset hsub)
      (writeRefused_iff_of_not_subset hsub)

theorem tryCopyRegion_triesAs (hs : m.grid.Sized) (hs' : source.grid.Sized) (rect : Rect) :
    m.TriesAs (tryCopyRegion rect source) (copyRegion rect source)
      (CopyRefused m source rect) := by
  by_cases hsub : rect ⊆ m.bounds
  · by_cases hsub' : rect ⊆ source.bounds
    · obtain ⟨g, hcopy, _⟩ := copyRegion_of_subset hs hs' hsub hsub'
      exact triesAs_of_made (tryCopyRegion_of_ok hcopy) hcopy fun _ =>
        not_copyRefused hsub hsub'
    · exact triesAs_of_refused (tryCopyRegion_of_source_not_subset hsub hsub')
        (copyRegion_of_not_subset fun h => hsub' h.2)
        (copyRefused_iff_of_source_not_subset hsub hsub')
  · exact triesAs_of_refused (tryCopyRegion_of_not_subset hsub)
      (copyRegion_of_not_subset fun h => hsub h.1) (copyRefused_iff_of_not_subset hsub)

/-! ## Empty rectangles -/

/-- A write to no pixel is only asked for its state. -/
theorem tryWrite_of_isEmpty (hs : m.grid.Sized) (he : rect.IsEmpty) :
    tryWrite rect st m =
      .ok (if m.config.Accepts st then .ok () else .error .reservationsDisabled) m := by
  by_cases ha : m.config.Accepts st
  · rw [if_pos ha]
    exact tryWrite_of_ok (write_of_isEmpty hs he ha)
  · rw [if_neg ha]
    exact tryWrite_of_not_accepts (Rect.subset_of_isEmpty he) ha

theorem tryCopyRegion_of_isEmpty (he : rect.IsEmpty) :
    tryCopyRegion rect source m = .ok (.ok ()) m :=
  tryCopyRegion_of_ok
    (copyRegion_of_isEmpty (Rect.subset_of_isEmpty he) (Rect.subset_of_isEmpty he) he)

/-- **To try is to do the same, and to say why where it may not be done.** -/
theorem tries_as_plain (hm : m.Reachable) (hsource : source.Reachable) (rect : Rect)
    (st : PixelState) :
    m.TriesAs (tryWrite rect st) (write rect st) (WriteRefused m rect st) ∧
    m.TriesAs (tryCopyRegion rect source) (copyRegion rect source) (CopyRefused m source rect) ∧
    (rect.IsEmpty →
      tryWrite rect st m =
        .ok (if m.config.Accepts st then .ok () else .error .reservationsDisabled) m ∧
      tryCopyRegion rect source m = .ok (.ok ()) m) := by
  have hs : m.grid.Sized := hm.sound.1
  refine ⟨tryWrite_triesAs hs rect st, tryCopyRegion_triesAs hs hsource.sound.1 rect, ?_⟩
  intro he
  exact ⟨tryWrite_of_isEmpty hs he, tryCopyRegion_of_isEmpty he⟩

/-- A map that takes no reservations. -/
def single : CoverageMap := blank ⟨-1, 0, 3, 3⟩ .single

theorem single_reachable : single.Reachable := by
  have hbounds : Rect.InRange ⟨-1, 0, 3, 3⟩ := by decide
  exact reachable_of_create hbounds (create_of_le (by decide))

/-- A map without reservations beside one that has some, with other bounds. -/
theorem tries_as_plain_mixed :
    single.Reachable ∧ mixed.Reachable ∧
    -- out of both bounds, of which the map's own are named
    tryCopyRegion ⟨2, 2, 9, 9⟩ mixed single =
      .ok (.error (.outOfBounds ⟨2, 2, 9, 9⟩ ⟨-1, 0, 3, 3⟩)) single ∧
    -- out of the bounds of the source alone
    tryCopyRegion ⟨-1, 1, 2, 2⟩ mixed single =
      .ok (.error (.outOfBounds ⟨-1, 1, 2, 2⟩ ⟨0, 0, 4, 4⟩)) single ∧
    -- edges far outside and in the wrong order, and a state that is not taken
    Rect.IsEmpty ⟨90, 9, 80, 12⟩ ∧
    tryWrite ⟨90, 9, 80, 12⟩ .reserved single = .ok (.error .reservationsDisabled) single ∧
    (∃ f n, write ⟨90, 9, 80, 12⟩ .reserved single = .error f n) ∧
    tryCopyRegion ⟨90, 9, 80, 12⟩ mixed single = .ok (.ok ()) single ∧
    -- inside both, where a reserved pixel arrives as unrendered
    ∃ n, tryCopyRegion ⟨1, 1, 3, 2⟩ mixed single = .ok (.ok ()) n ∧
      copyRegion ⟨1, 1, 3, 2⟩ mixed single = .ok () n ∧
      n.grid.get? ⟨1, 1⟩ = some .available ∧ n.grid.get? ⟨2, 1⟩ = some .unrendered := by
  have hempty : Rect.IsEmpty ⟨90, 9, 80, 12⟩ := by decide
  obtain ⟨_, hboth, _⟩ := tries_as_plain single_reachable mixed_reachable ⟨2, 2, 9, 9⟩ .available
  obtain ⟨_, hone, _⟩ := tries_as_plain single_reachable mixed_reachable ⟨-1, 1, 2, 2⟩ .available
  obtain ⟨hwrite, _, hnone⟩ :=
    tries_as_plain single_reachable mixed_reachable ⟨90, 9, 80, 12⟩ .reserved
  obtain ⟨_, hin, _⟩ := tries_as_plain single_reachable mixed_reachable ⟨1, 1, 3, 2⟩ .available
  have hreserved := (hnone hempty).1
  rw [if_neg (by decide)] at hreserved
  refine ⟨single_reachable, mixed_reachable, ?_, ?_, hempty, hreserved, ?_, (hnone hempty).2, ?_⟩
  · exact (hboth.refused _ _).mpr ⟨rfl, .target (p := ⟨8, 8⟩) (by decide) (by decide)⟩
  · refine (hone.refused _ _).mpr ⟨rfl, .source (p := ⟨-1, 1⟩) ?_ (by decide) (by decide)⟩
    exact Rect.subset_iff.mp (by decide)
  · exact hwrite.refused_iff.mp ⟨_, _, hreserved⟩
  · have hsub : Rect.mk 1 1 3 2 ⊆ single.bounds := by decide
    have hsub' : Rect.mk 1 1 3 2 ⊆ mixed.bounds := by decide
    obtain ⟨g, hcopy, -, -, hget⟩ :=
      copyRegion_of_subset single_reachable.sound.1 mixed_reachable.sound.1 hsub hsub'
    exact ⟨_, (hin.made _).mpr hcopy, hcopy, hget ⟨1, 1⟩, hget ⟨2, 1⟩⟩

end CoverageMap

end PixelCoverage
