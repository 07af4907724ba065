import PixelCoverage.Proofs.Uniform

/-!
# The box of a region and the box of its work list

A region has an uncovered box, and its work list has a bounding box. The first is found by
passes over the pixels, the second by joining rectangles one by one, and both are the smallest
rectangle around a set of pixels:

* the uncovered box is the smallest around the work of the region inside the bounds;
* the bounding box of a list is the smallest around what it lists, and that is also the smallest
  around all that is to be done, whether the uncovered box is listed as it is or in strips.

So cutting the box into strips takes pixels off a list, but never so many that its box shrinks:
some pixel along each edge of the box is work, and no strip and no residual leaves work out.
-/

namespace PixelCoverage

/-! ## Boxes of rectangles -/

namespace Rect

variable {r s : Rect} {P Q : Pixel → Prop}

theorem IsBox.congr (h : r.IsBox P) (hPQ : ∀ p, P p ↔ Q p) : r.IsBox Q :=
  funext (fun p => propext (hPQ p)) ▸ h

/-- A set with pixels has one box only. -/
theorem IsBox.unique (h : r.IsBox P) (h' : s.IsBox P) (he : ¬ r.IsEmpty) : r = s := by
  have hs : ¬ s.IsEmpty := by
    rw [h'.isEmpty_iff, ← h.isEmpty_iff]
    exact he
  exact (within_of_subset (h.least s h'.holds) he).eq_of_subset (h'.least r h.holds) hs

/-- A rectangle is the box of its own pixels. -/
theorem isBox_self (r : Rect) : r.IsBox (· ∈ r) :=
  ⟨fun _ hp => hp, fun _ hs => subset_iff.mpr hs⟩

/-- Joined, two boxes give the box of both sets. -/
theorem IsBox.hull (h : r.IsBox P) (h' : s.IsBox Q) :
    (r.hull s).IsBox (fun p => P p ∨ Q p) where
  holds p hp := hp.elim (fun hp => mem_hull_of_mem_left (h.holds p hp))
    fun hp => mem_hull_of_mem_right (h'.holds p hp)
  least t ht := hull_subset (h.least t fun p hp => ht p (.inl hp))
    (h'.least t fun p hp => ht p (.inr hp))

/-- Joined one by one, rectangles give the smallest one around them all. -/
theorem IsBox.foldl_hull (h : r.IsBox P) (l : List Rect) :
    (l.foldl Rect.hull r).IsBox (fun p => P p ∨ ∃ q ∈ l, p ∈ q) := by
  induction l generalizing r P with
  | nil => exact h.congr fun p => by simp
  | cons q l ih => exact (ih (h.hull (isBox_self q))).congr fun p => by simp [or_assoc]

end Rect

/-- The bounding box of a list is the smallest rectangle around what is listed. -/
theorem WorkList.boundingBox_isBox (w : WorkList) :
    w.boundingBox.IsBox (fun p => ∃ r ∈ w.rects, p ∈ r) :=
  ((Rect.isBox_self .zero).foldl_hull w.rects).congr fun p => by simp

namespace CoverageMap

variable {m : CoverageMap} {roi : Rect} {p : Pixel} {mode : Mode} {w on off inside : WorkList}
  {t : Trimmed} {answer : Option Decomposition}

/-! ## The uncovered box -/

/-- **The uncovered box is exactly the smallest.** It is empty when there is no work in the
region. Otherwise it lies in the region, leaves no work out, and lies in every rectangle that
leaves none out, although the passes that find it go one after the other. -/
theorem uncoveredBox_exact (hm : m.Reachable) (mode : Mode) (roi : Rect) :
    ∃ t, m.uncoveredBox mode roi = .ok t ∧
      (t.rect.IsEmpty ↔ ∀ p ∈ m.inside roi, ¬ m.grid.Needs mode p) ∧
      t.rect ⊆ m.inside roi ∧
      (∀ p ∈ m.inside roi, m.grid.Needs mode p → p ∈ t.rect) ∧
      ∀ s : Rect, (∀ p ∈ m.inside roi, m.grid.Needs mode p → p ∈ s) → t.rect ⊆ s := by
  obtain ⟨t, et, hbox, _⟩ := uncoveredBox_found hm.sound mode roi
  refine ⟨t, et, ?_, ?_, fun p hp hn => hbox.holds p ⟨hp, hn⟩, fun s hs => ?_⟩
  · rw [hbox.isEmpty_iff]
    exact ⟨fun h p hp hn => h p ⟨hp, hn⟩, fun h p hp => h p hp.1 hp.2⟩
  · exact hbox.least _ fun p hp => hp.1
  · exact hbox.least s fun p hp => hs p hp.1 hp.2

/-- The restriction takes work away as well. -/
theorem uncoveredBox_exact_mixed :
    ∃ m : CoverageMap, m = { mixed with restriction := some ⟨-5, 0, 3, 3⟩ } ∧ m.Reachable ∧
      ∃ t, m.uncoveredBox .trimap ⟨1, 1, 9, 9⟩ = .ok t ∧ t.rect = ⟨1, 2, 2, 3⟩ ∧
        t.rect ⊆ m.inside ⟨1, 1, 9, 9⟩ ∧
        (∀ p ∈ m.inside ⟨1, 1, 9, 9⟩, m.grid.Needs .trimap p → p ∈ t.rect) ∧
        ∀ s : Rect, (∀ p ∈ m.inside ⟨1, 1, 9, 9⟩, m.grid.Needs .trimap p → p ∈ s) →
          t.rect ⊆ s := by
  have hm : Reachable { mixed with restriction := some ⟨-5, 0, 3, 3⟩ } := by
    refine mixed_reachable.restrict fun s hs => ?_
    obtain rfl := Option.some.inj hs
    decide
  obtain ⟨t, et, _, hin, hall, hleast⟩ := uncoveredBox_exact hm .trimap ⟨1, 1, 9, 9⟩
  have he : CoverageMap.uncoveredBox { mixed with restriction := some ⟨-5, 0, 3, 3⟩ } .trimap
      ⟨1, 1, 9, 9⟩ = .ok ⟨⟨1, 2, 2, 3⟩, true⟩ := by cbv
  rw [he] at et
  cases et
  exact ⟨_, rfl, hm, _, he, rfl, hin, hall, hleast⟩

/-! ## One list in two forms -/

/-- The map with the strips of its work lists turned on or off. -/
def bordered (m : CoverageMap) (on : Bool) : CoverageMap :=
  { m with config := { m.config with decomposeBorders := on } }

/-- That is what a call leaves of the map. -/
theorem setDecomposeBorders_apply (m : CoverageMap) (on : Bool) :
    setDecomposeBorders on m = .ok () (m.bordered on) := rfl

/-- What is listed inside the bounds: the box alone, or the strips and the residual. -/
def listedInside (t : Trimmed) (answer : Option Decomposition) : Bool → List Rect
  | false => [t.rect].filter fun r => ¬ r.IsEmpty
  | true => answer.elim [] Decomposition.work

/-- The work list of a region: the bands, then the box or its strips. -/
def listOf (m : CoverageMap) (roi : Rect) (t : Trimmed) (answer : Option Decomposition)
    (on : Bool) : WorkList where
  rects := (m.narrowed roi).outside m.bounds ++ listedInside t answer on
  reservedElsewhere := t.reserved || (on && answer.any Decomposition.reservedElsewhere)

/-- The answers to the three questions about a region, and how they belong together. -/
structure Answers (m : CoverageMap) (mode : Mode) (roi : Rect) (t : Trimmed)
    (answer : Option Decomposition) : Prop where
  box : m.uncoveredBox mode roi = .ok t
  strips : m.decompose mode roi = .ok answer
  list : ∀ on, (m.bordered on).workList mode roi = .ok (m.listOf roi t answer on)
  within : ∀ on, ∀ r ∈ listedInside t answer on, r ⊆ t.rect

/-- Outside the bounds there is nothing to answer. -/
theorem answers_of_isEmpty (hm : m.grid.Sound) (he : (m.inside roi).IsEmpty) :
    m.Answers mode roi ⟨.zero, false⟩ none where
  box := if_pos he
  strips := if_pos he
  list on := by
    have hi : m.grid.workInside mode on (m.inside roi) = .ok {} := if_pos he
    refine (workList_of_workInside (m := m.bordered on) hm hi).trans ?_
    cases on <;> rfl
  within on r hr := by
    cases on <;> exact absurd hr List.not_mem_nil

/-- Without work there is nothing but a flag. -/
theorem answers_of_isEmpty_box (hm : m.grid.Sound) (he : ¬ (m.inside roi).IsEmpty)
    (et : m.grid.uncoveredBox mode (m.inside roi) = .ok t) (hb : t.rect.IsEmpty) :
    m.Answers mode roi t none := by
  have hnil : ∀ on, listedInside t none on = [] := by
    intro on
    cases on with
    | false => exact List.filter_eq_nil_iff.mpr (by simpa using hb)
    | true => rfl
  refine ⟨(uncoveredBox_of_not_isEmpty hm he).trans et, decompose_of_isEmpty hm he et hb,
    fun on => ?_, fun on r hr => ?_⟩
  · rw [listOf, hnil, Option.any_none, Bool.and_false, Bool.or_false]
    exact workList_of_workInside (m := m.bordered on) hm (Grid.workInside_of_isEmpty he et hb)
  · rw [hnil] at hr
    exact absurd hr List.not_mem_nil

/-- A box with work in it is peeled. -/
theorem answers_of_peel {d : Decomposition} (hm : m.grid.Sound) (he : ¬ (m.inside roi).IsEmpty)
    (et : m.grid.uncoveredBox mode (m.inside roi) = .ok t) (hb : ¬ t.rect.IsEmpty)
    (ed : m.grid.peel mode t.rect = .ok d) (hd : m.grid.Peeled mode t.rect d) :
    m.Answers mode roi t
      (some { d with reservedElsewhere := d.reservedElsewhere || t.reserved }) where
  box := (uncoveredBox_of_not_isEmpty hm he).trans et
  strips := decompose_of_peel hm he et hb ed
  list on := by
    cases on with
    | false =>
      have hone : [t.rect].filter (fun r => ¬ r.IsEmpty) = [t.rect] :=
        List.filter_eq_self.mpr (by simpa using hb)
      rw [listOf, listedInside, hone, Bool.false_and, Bool.or_false]
      exact workList_of_workInside (m := m.bordered false) hm (Grid.workInside_of_box he et hb)
    | true =>
      -- the decomposition tells of what its box tells of
      have hflag : (t.reserved || (d.reservedElsewhere || t.reserved)) =
          (t.reserved || d.reservedElsewhere) := by
        rw [Bool.or_comm d.reservedElsewhere, ← Bool.or_assoc, Bool.or_self]
      rw [listOf, Option.any_some, Bool.true_and, hflag]
      exact workList_of_workInside (m := m.bordered true) hm
        (Grid.workInside_of_strips he et hb ed)
  within on r hr := by
    cases on with
    | false =>
      rw [List.mem_singleton.mp (List.mem_filter.mp hr).1]
      exact Rect.subset_iff.mpr fun _ hp => hp
    | true => exact hd.subset_of_mem_work hr

/-- **Every question is answered, and the answers belong together.** -/
theorem exists_answers (hm : m.grid.Sound) (mode : Mode) (roi : Rect) :
    ∃ t answer, m.Answers mode roi t answer := by
  by_cases he : (m.inside roi).IsEmpty
  · exact ⟨_, _, answers_of_isEmpty hm he⟩
  have hr : (m.inside roi).Within m.grid.bounds := Grid.within_bounds he
  obtain ⟨t, et, ht⟩ := Grid.uncoveredBox_boxed mode hm.1 hm.2 hr
  by_cases hb : t.rect.IsEmpty
  · exact ⟨_, _, answers_of_isEmpty_box hm he et hb⟩
  · obtain ⟨d, ed, hd⟩ := Grid.peel_peeled mode hm.1 hm.2 (ht.within.trans hr)
    exact ⟨_, _, answers_of_peel hm he et hb ed hd⟩

/-! ## What the strips leave of a list -/

/-- A pixel that is to be computed for a region: it was never rendered, or it needs work. -/
def ToDo (m : CoverageMap) (mode : Mode) (roi : Rect) (p : Pixel) : Prop :=
  p ∈ m.narrowed roi ∧ (p ∉ m.bounds ∨ m.grid.Needs mode p)

/-- **The bounding box of a list is the smallest rectangle around all that is to be done,**
strips or not. -/
theorem Listed.boundingBox_isBox (h : m.Listed mode roi w inside) (hb : m.bounds.Normal)
    (ht : t.rect.IsBox fun p => p ∈ m.inside roi ∧ m.grid.Needs mode p)
    (hin : ∀ r ∈ inside.rects, r ⊆ t.rect) : w.boundingBox.IsBox (m.ToDo mode roi) where
  holds p hp := w.boundingBox_isBox.holds p (h.covers hb hp.1 hp.2)
  least s hs := by
    refine w.boundingBox_isBox.least s fun p hp => ?_
    obtain ⟨r, hr, hpr⟩ := hp
    rw [h.rects] at hr
    rcases List.mem_append.mp hr with hband | hwork
    · obtain ⟨hroi, hout⟩ := mem_outside_narrowed hb hband hpr
      exact hs p ⟨hroi, .inl hout⟩
    · have hbox : t.rect ⊆ s :=
        ht.least s fun q hq => hs q ⟨(mem_inside.mp hq.1).1, .inr hq.2⟩
      exact Rect.mem_of_subset hbox (Rect.mem_of_subset (hin r hwork) hpr)

theorem Answers.listed (h : m.Answers mode roi t answer) (hm : m.grid.Sound) (on : Bool) :
    ∃ inside, (m.bordered on).Listed mode roi (m.listOf roi t answer on) inside ∧
      inside.rects = listedInside t answer on := by
  obtain ⟨w, inside, hw, hl⟩ := workList_listed (m := m.bordered on) hm mode roi
  rw [h.list on] at hw
  cases hw
  exact ⟨inside, hl, (List.append_cancel_left hl.rects).symm⟩

/-- The strips and the residual have no more area than the box they are cut from. -/
theorem Answers.sum_area_le (h : m.Answers mode roi t answer) (hm : m.grid.Sound) :
    ((listedInside t answer true).map Rect.area).sum ≤
      ((listedInside t answer false).map Rect.area).sum := by
  obtain ⟨inside, hl, hin⟩ := h.listed hm true
  have hne : ∀ r ∈ listedInside t answer true, ¬ r.IsEmpty := hin ▸ hl.worked.nonempty
  have hap : (listedInside t answer true).Pairwise fun r s => ¬ r.Meets s := hin ▸ hl.worked.apart
  by_cases hb : t.rect.IsEmpty
  · rw [Rect.eq_nil_of_isEmpty hne (h.within true) hb]
    exact Nat.zero_le _
  · have hone : listedInside t answer false = [t.rect] :=
      List.filter_eq_self.mpr (by simpa using hb)
    rw [hone, List.map_singleton, List.sum_singleton]
    exact Rect.sum_area_le hne hap (h.within true)

/-- What cutting the box into strips changes of a work list, `off` without and `on` with them. -/
structure Refines (m : CoverageMap) (mode : Mode) (roi : Rect) (off on : WorkList) (t : Trimmed)
    (answer : Option Decomposition) : Prop where
  /-- First the bands, then the box, unless it is empty. -/
  off_rects : off.rects =
    (m.narrowed roi).outside m.bounds ++ [t.rect].filter fun r => ¬ r.IsEmpty
  /-- First the same bands, then the strips and the residual, if there are any. -/
  on_rects : on.rects = (m.narrowed roi).outside m.bounds ++ answer.elim [] Decomposition.work
  /-- The box is the smallest around the work of the region. -/
  isBox : t.rect.IsBox fun p => p ∈ m.inside roi ∧ m.grid.Needs mode p
  within : ∀ d ∈ answer, ∀ r ∈ d.work, r ⊆ t.rect
  nil_iff : on.rects = [] ↔ off.rects = []
  boundingBox : on.boundingBox = off.boundingBox
  boundingBox_eq : roi ⊆ m.bounds → ¬ t.rect.IsEmpty → on.boundingBox = t.rect
  area : ∃ a b, on.area = .ok a ∧ off.area = .ok b ∧ a ≤ b
  flag : off.reservedElsewhere = true → on.reservedElsewhere = true

theorem Answers.refines (h : m.Answers mode roi t answer) (hm : m.grid.Sound)
    (hb : m.bounds.Normal) (hroi : roi.InRange) :
    m.Refines mode roi (m.listOf roi t answer false) (m.listOf roi t answer true) t answer := by
  obtain ⟨t', et, ht, _⟩ := uncoveredBox_found hm mode roi
  rw [h.box] at et
  cases et
  obtain ⟨inside, hoff, hin⟩ := h.listed hm false
  obtain ⟨inside', hon, hin'⟩ := h.listed hm true
  have hbox := hoff.boundingBox_isBox hb ht (hin ▸ h.within false)
  have hbox' := hon.boundingBox_isBox hb ht (hin' ▸ h.within true)
  have hnil : (m.listOf roi t answer true).rects = [] ↔ (m.listOf roi t answer false).rects = [] :=
    (hon.rects_eq_nil_iff hb).trans (hoff.rects_eq_nil_iff hb).symm
  refine ⟨rfl, rfl, ht, ?_, hnil, ?_, ?_, ?_, ?_⟩
  · intro d hd r hr
    refine h.within true r ?_
    rw [Option.mem_def.mp hd]
    exact hr
  · by_cases he : (m.listOf roi t answer true).rects = []
    · rw [WorkList.boundingBox, WorkList.boundingBox, he, hnil.mp he]
    · obtain ⟨r, hr⟩ := List.exists_mem_of_ne_nil _ he
      obtain ⟨p, hp⟩ := Rect.not_isEmpty_iff_exists_mem.mp (hon.nonempty r hr)
      refine hbox'.unique hbox (Rect.not_isEmpty_iff_exists_mem.mpr ⟨p, ?_⟩)
      exact (WorkList.boundingBox_isBox _).holds p ⟨r, hr, hp⟩
  · intro hin he
    refine (ht.unique (hbox'.congr fun p => ?_) he).symm
    have hp : p ∈ m.narrowed roi → p ∈ m.bounds := fun hp =>
      Rect.mem_of_subset hin (Rect.mem_of_subset (narrowed_subset m roi) hp)
    rw [ToDo, mem_inside]
    exact ⟨fun h => ⟨⟨h.1, hp h.1⟩, h.2.resolve_left (not_not_intro (hp h.1))⟩,
      fun h => ⟨h.1.1, .inr h.2⟩⟩
  · refine ⟨_, _, WorkList.area_of_sum_le (hon.sum_area_le hb hroi),
      WorkList.area_of_sum_le (hoff.sum_area_le hb hroi), ?_⟩
    rw [listOf, listOf, List.map_append, List.map_append, List.sum_append, List.sum_append]
    exact Nat.add_le_add_left (h.sum_area_le hm) _
  · intro hf
    have htold : t.reserved = true := by simpa [listOf] using hf
    rw [listOf, htold]
    rfl

/-- **Cutting the box into strips only refines a work list.** The same region is asked about
with and without them, and as a box and as a decomposition. -/
theorem strips_refine_box (hm : m.Reachable) (hb : m.bounds.Normal) (hroi : roi.InRange)
    (mode : Mode) :
    ∃ off on t answer, (m.bordered false).workList mode roi = .ok off ∧
      (m.bordered true).workList mode roi = .ok on ∧
      m.uncoveredBox mode roi = .ok t ∧
      m.decompose mode roi = .ok answer ∧
      m.Refines mode roi off on t answer := by
  obtain ⟨t, answer, h⟩ := exists_answers hm.sound mode roi
  exact ⟨_, _, t, answer, h.list false, h.list true, h.box, h.strips,
    h.refines hm.sound hb hroi⟩

theorem strips_refine_box_mixed :
    mixed.Reachable ∧ mixed.bounds.Normal ∧ Rect.InRange ⟨-1, 1, 6, 9⟩ ∧
      ∃ off on t answer,
        (mixed.bordered false).workList .trimap ⟨-1, 1, 6, 9⟩ = .ok off ∧
        (mixed.bordered true).workList .trimap ⟨-1, 1, 6, 9⟩ = .ok on ∧
        mixed.uncoveredBox .trimap ⟨-1, 1, 6, 9⟩ = .ok t ∧ t.rect = ⟨0, 1, 4, 4⟩ ∧
        off.rects.length = 4 ∧ on.rects.length = 7 ∧ on.boundingBox = ⟨-1, 1, 6, 9⟩ ∧
        off.area = .ok 56 ∧ on.area = .ok 53 ∧
        mixed.Refines .trimap ⟨-1, 1, 6, 9⟩ off on t answer := by
  have hb : mixed.bounds.Normal := by decide
  have hr : Rect.InRange ⟨-1, 1, 6, 9⟩ := by decide
  obtain ⟨off, on, t, answer, eoff, eon, et, ea, h⟩ :=
    strips_refine_box mixed_reachable hb hr .trimap
  have hoff : (mixed.bordered false).workList .trimap ⟨-1, 1, 6, 9⟩ = .ok
      ⟨[⟨-1, 1, 0, 4⟩, ⟨4, 1, 6, 4⟩, ⟨-1, 4, 6, 9⟩, ⟨0, 1, 4, 4⟩], false⟩ := by cbv
  have hon : (mixed.bordered true).workList .trimap ⟨-1, 1, 6, 9⟩ = .ok
      ⟨[⟨-1, 1, 0, 4⟩, ⟨4, 1, 6, 4⟩, ⟨-1, 4, 6, 9⟩, ⟨0, 3, 4, 4⟩, ⟨0, 1, 1, 3⟩, ⟨3, 1, 4, 3⟩,
        ⟨1, 2, 2, 3⟩], true⟩ := by cbv
  have hbox : mixed.uncoveredBox .trimap ⟨-1, 1, 6, 9⟩ = .ok ⟨⟨0, 1, 4, 4⟩, false⟩ := by cbv
  rw [hoff] at eoff
  rw [hon] at eon
  rw [hbox] at et
  cases eoff
  cases eon
  cases et
  exact ⟨mixed_reachable, hb, hr, _, _, _, answer, hoff, hon, hbox, rfl, rfl, rfl, rfl, rfl, rfl, h⟩

end CoverageMap

end PixelCoverage
