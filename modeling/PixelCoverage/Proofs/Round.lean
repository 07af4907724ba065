import PixelCoverage.Proofs.Flag
import PixelCoverage.Proofs.Marks

/-!
# One round finishes a region

A renderer asks for the work in a region, computes the rectangles one after the other and marks
each of them when it is done. After one such round there is nothing left to ask for.

Nothing is left because the list holds whatever needs work, and what is marked needs none. What
else the list holds lies in the region too, and is at worst done twice. The marks all give the
same state, so the round may go through the list in any order.

The state has to be one that needs no work, and in trimap mode a reservation is enough. Then the
flag of the second list tells who the work is left to: it is raised for every part of the region
that holds a reserved pixel.
-/

namespace PixelCoverage.CoverageMap

open Update

variable {m n : CoverageMap} {roi part : Rect} {rects order : List Rect} {st : PixelState}
  {mode : Mode} {w inside : WorkList} {p : Pixel}

/-! ## The marks of a round -/

/-- Marks the part of a rectangle that lies in the bounds. -/
def markInside (st : PixelState) (r : Rect) : Update CoverageMap Unit := do
  let m ← get
  write (r ∩ m.bounds) st

/-- Marks some rectangles one after the other. -/
def markEach (rects : List Rect) (st : PixelState) : Update CoverageMap Unit :=
  rects.forM (markInside st)

/-- The marks of a round go through. -/
theorem markEach_of_accepts (rects : List Rect) (hs : m.grid.Sized) (ha : m.config.Accepts st) :
    ∃ n, markEach rects st m = .ok () n ∧ Marked rects st m n := by
  unfold markEach
  induction rects generalizing m with
  | nil => exact ⟨m, rfl, .refl hs st⟩
  | cons r rects ih =>
    obtain ⟨g, hw, hmark⟩ := write_inter_bounds r hs ha
    have hr : markInside st r m = .ok () { m with grid := g } := hw
    obtain ⟨n, hrest, hmark'⟩ := ih hmark.sized ha
    refine ⟨n, ?_, hmark.append hmark'⟩
    rw [forM_cons_of_ok hr]
    exact hrest

/-- A round may be made in any order. -/
theorem markEach_perm (hb : m.bounds.Normal) (hs : m.grid.Sized) (ha : m.config.Accepts st)
    (h : Marked rects st m n) (hperm : order.Perm rects) : markEach order st m = .ok () n := by
  obtain ⟨n', hn', hmark⟩ := markEach_of_accepts order hs ha
  have hsame : n' = n := hmark.unique hb h fun r => hperm.mem_iff
  rw [hn', hsame]

/-! ## The region after a round -/

/-- `n` is `m` with other pixels in the region. -/
structure ChangedIn (region : Rect) (m n : CoverageMap) : Prop where
  restriction : n.restriction = m.restriction
  config : n.config = m.config
  bounds : n.bounds = m.bounds
  get? : ∀ p, p ∉ region → n.grid.get? p = m.grid.get? p

/-- The list does not reach out of the region, so neither do the marks. -/
theorem Listed.changedIn (h : m.Listed mode roi w inside) (hb : m.bounds.Normal)
    (hmark : Marked w.rects st m n) : ChangedIn (m.inside roi) m n where
  restriction := hmark.restriction
  config := hmark.config
  bounds := hmark.bounds
  get? p hp := by
    rw [hmark.get?]
    refine if_neg fun hin => hp ?_
    obtain ⟨hbounds, r, hr, hpr⟩ := hin
    exact mem_inside.mpr ⟨Rect.mem_of_subset (h.within hb r hr) hpr, hbounds⟩

theorem ChangedIn.inside_eq {region : Rect} (h : ChangedIn region m n) (roi : Rect) :
    n.inside roi = m.inside roi := by
  rw [inside, inside, narrowed, narrowed, h.restriction, h.bounds]

/-- **What needed work has been marked.** -/
theorem Listed.not_needs_of_marked (h : m.Listed mode roi w inside) (hb : m.bounds.Normal)
    (hmark : Marked w.rects st m n) (hst : ¬ mode.Needs st) (hp : p ∈ m.inside roi) :
    ¬ n.grid.Needs mode p := by
  obtain ⟨hroi, hin⟩ := mem_inside.mp hp
  intro hneeds
  by_cases hl : ∃ r ∈ w.rects, p ∈ r
  · exact not_needs_of_get? (hmark.of_mem hin hl) hst hneeds
  · -- what is not marked is as it was, and the list has left out no work
    obtain ⟨k, hk, hwork⟩ := hneeds
    rw [hmark.of_not_mem hl] at hk
    exact hl (h.covers hb hroi (Or.inr ⟨k, hk, hwork⟩))

/-- In simple mode only an available pixel needs no work. -/
theorem available_of_not_needs (hm : m.grid.Sound) (hp : p ∈ m.bounds)
    (hn : ¬ m.grid.Needs .simple p) : m.grid.get? p = some .available := by
  obtain ⟨s, hs, hblocks⟩ := (Grid.needs_or_blocks hm.1 hp).resolve_left hn
  rw [Mode.needs_simple, Classical.not_not] at hblocks
  rw [hs, hblocks]

/-! ## The second list -/

/-- Where nothing needs work the bands are listed, and the flag tells of every reserved pixel. -/
theorem workList_of_not_needs (hm : m.grid.Sound)
    (hno : ∀ p ∈ m.inside roi, ¬ m.grid.Needs mode p) :
    ∃ flag, m.workList mode roi = .ok ⟨(m.narrowed roi).outside m.bounds, flag⟩ ∧
      (flag = true ↔ ∃ p ∈ m.inside roi, m.grid.get? p = some .reserved) := by
  obtain ⟨⟨rects, flag⟩, inside, hw, hl⟩ := workList_listed hm mode roi
  have hidle : inside.rects = [] := hl.worked.idle hno
  have hrects : rects = (m.narrowed roi).outside m.bounds := by
    rw [← List.append_nil ((m.narrowed roi).outside m.bounds), ← hidle]
    exact hl.rects
  subst hrects
  refine ⟨flag, hw, ?_, ?_⟩
  · intro hflag
    obtain ⟨p, hp, hres, _⟩ := hl.told hflag
    exact ⟨p, hp, hres⟩
  · rintro ⟨p, hp, hres⟩
    have hflag : flag = inside.reservedElsewhere := hl.flag
    rw [hflag]
    refine hl.worked.tells p hp ?_ hres
    rw [hidle]
    exact fun r hr => absurd hr List.not_mem_nil

/-- The bands are the rectangles without a pixel in the bounds. -/
theorem Listed.filter_not_meets (h : m.Listed mode roi w inside) (hb : m.bounds.Normal) :
    w.rects.filter (fun r => ¬ r.Meets m.bounds) = (m.narrowed roi).outside m.bounds := by
  have hinside : ∀ r ∈ inside.rects, r.Meets m.bounds := by
    intro r hr
    obtain ⟨p, hp⟩ := Rect.not_isEmpty_iff_exists_mem.mp (h.worked.nonempty r hr)
    exact Rect.meets_iff.mpr ⟨p, hp, Rect.mem_of_subset (h.inside_subset r hr) hp⟩
  rw [h.rects, List.filter_append, List.filter_eq_self.mpr, List.filter_eq_nil_iff.mpr,
    List.append_nil]
  · intro r hr hapart
    exact of_decide_eq_true hapart (hinside r hr)
  · intro r hr
    exact decide_eq_true (Rect.not_meets_of_mem_outside hb hr)

/-! ## Rounds -/

/-- A round of marks in a region: whatever the order, it leads from `m` to `n`, which is changed
in the region alone. -/
structure Round (m : CoverageMap) (mode : Mode) (roi : Rect) (st : PixelState) (w : WorkList)
    (n : CoverageMap) : Prop where
  asked : m.workList mode roi = .ok w
  any_order : ∀ order : List Rect, order.Perm w.rects → markEach order st m = .ok () n
  changed : ChangedIn (m.inside roi) m n
  sound : n.grid.Sound
  done : ∀ p ∈ m.inside roi, ¬ n.grid.Needs mode p
  bands : w.rects.filter (fun r => ¬ r.Meets m.bounds) = (m.narrowed roi).outside m.bounds

/-- With a state that is taken and needs no work, a round can always be made. -/
theorem exists_round (hm : m.grid.Sound) (hb : m.bounds.Normal) (roi : Rect)
    (ha : m.config.Accepts st) (hst : ¬ mode.Needs st) : ∃ w n, m.Round mode roi st w n := by
  obtain ⟨w, inside, hw, hl⟩ := workList_listed hm mode roi
  obtain ⟨n, _, hmark⟩ := markEach_of_accepts w.rects hm.1 ha
  exact ⟨w, n,
    { asked := hw
      any_order := fun _ hperm => markEach_perm hb hm.1 ha hmark hperm
      changed := hl.changedIn hb hmark
      sound := hmark.sound hm
      done := fun _ hp => hl.not_needs_of_marked hb hmark hst hp
      bands := hl.filter_not_meets hb }⟩

/-- After a round nothing is listed in any part of the region but its bands, and the flag tells of
every reserved pixel in it. -/
theorem Round.workList_part (h : m.Round mode roi st w n) (hpart : part ⊆ roi) :
    ∃ flag, n.workList mode part = .ok ⟨(m.narrowed part).outside m.bounds, flag⟩ ∧
      (flag = true ↔ ∃ p ∈ part, p ∈ m.inside roi ∧ n.grid.get? p = some .reserved) := by
  have hmem : ∀ p, p ∈ n.inside part ↔ p ∈ part ∧ p ∈ m.inside roi := by
    intro p
    rw [h.changed.inside_eq, mem_inside, mem_inside, mem_narrowed, mem_narrowed]
    constructor
    · rintro ⟨⟨hp, hr⟩, hin⟩
      exact ⟨hp, ⟨Rect.mem_of_subset hpart hp, hr⟩, hin⟩
    · rintro ⟨hp, ⟨_, hr⟩, hin⟩
      exact ⟨⟨hp, hr⟩, hin⟩
  have hno : ∀ p ∈ n.inside part, ¬ n.grid.Needs mode p := fun p hp =>
    h.done p ((hmem p).mp hp).2
  obtain ⟨flag, hw, hflag⟩ := workList_of_not_needs h.sound hno
  refine ⟨flag, ?_, ?_⟩
  · rw [hw, narrowed, narrowed, h.changed.restriction, h.changed.bounds]
  · simp only [hflag, hmem, and_assoc]

/-- **One round over the work list finishes the region,** in whatever order it is made. -/
theorem one_round_finishes (hm : m.Reachable) (hb : m.bounds.Normal) (roi : Rect) :
    (∃ w n, m.workList .simple roi = .ok w ∧
      (∀ order : List Rect, order.Perm w.rects → markEach order .available m = .ok () n) ∧
      ChangedIn (m.inside roi) m n ∧
      (∀ p ∈ m.inside roi, n.grid.get? p = some .available) ∧
      n.workList .simple roi = .ok ⟨w.rects.filter fun r => ¬ r.Meets m.bounds, false⟩) ∧
    (m.config.reservations = true → ∃ w n, m.workList .trimap roi = .ok w ∧
      (∀ order : List Rect, order.Perm w.rects → markEach order .reserved m = .ok () n) ∧
      ChangedIn (m.inside roi) m n ∧
      (∀ p ∈ m.inside roi, n.grid.get? p ≠ some .unrendered) ∧
      ∀ part : Rect, part ⊆ roi → ∃ w', n.workList .trimap part = .ok w' ∧
        (∀ r ∈ w'.rects, ¬ r.Meets m.bounds) ∧
        (w'.reservedElsewhere = true ↔
          ∃ p ∈ part, p ∈ m.inside roi ∧ n.grid.get? p = some .reserved)) := by
  refine ⟨?_, ?_⟩
  · have haccepts : m.config.Accepts .available := nofun
    have hst : ¬ Mode.simple.Needs .available := fun hneeds => hneeds rfl
    obtain ⟨w, n, h⟩ := exists_round hm.sound hb roi haccepts hst
    have havailable : ∀ p ∈ m.inside roi, n.grid.get? p = some .available := by
      intro p hp
      have hin : p ∈ n.bounds := h.changed.bounds ▸ (mem_inside.mp hp).2
      exact available_of_not_needs h.sound hin (h.done p hp)
    obtain ⟨flag, hw', hflag⟩ := h.workList_part (Rect.subset_iff.mpr fun _ hp => hp)
    have hquiet : flag = false := by
      rw [Bool.eq_false_iff]
      intro hf
      obtain ⟨p, _, hp, hres⟩ := hflag.mp hf
      rw [havailable p hp] at hres
      cases hres
    refine ⟨w, n, h.asked, h.any_order, h.changed, havailable, ?_⟩
    rw [hw', h.bands, hquiet]
  · intro hon
    have haccepts : m.config.Accepts .reserved := fun _ => hon
    have hst : ¬ Mode.trimap.Needs .reserved := nofun
    obtain ⟨w, n, h⟩ := exists_round hm.sound hb roi haccepts hst
    refine ⟨w, n, h.asked, h.any_order, h.changed, fun p hp hun => ?_, fun part hpart => ?_⟩
    · exact h.done p hp ⟨_, hun, rfl⟩
    · obtain ⟨flag, hw', hflag⟩ := h.workList_part hpart
      exact ⟨_, hw', fun r hr => Rect.not_meets_of_mem_outside hb hr, hflag⟩

/-- Two rounds in a region that sticks out, one for each mode, and both against the order of their
lists. In trimap mode the pixel in the middle is left to its holder. -/
theorem one_round_finishes_mixed :
    mixed.Reachable ∧ mixed.bounds.Normal ∧
      (∃ n, markEach [⟨1, 1, 3, 3⟩, ⟨3, 1, 4, 3⟩, ⟨4, 1, 5, 3⟩] .available mixed = .ok () n ∧
        n.workList .simple ⟨1, 1, 5, 3⟩ = .ok ⟨[⟨4, 1, 5, 3⟩], false⟩) ∧
      mixed.config.reservations = true ∧ (⟨2, 1, 3, 2⟩ : Rect) ⊆ ⟨1, 1, 5, 3⟩ ∧
      ∃ n, markEach [⟨1, 2, 2, 3⟩, ⟨3, 1, 4, 3⟩, ⟨4, 1, 5, 3⟩] .reserved mixed = .ok () n ∧
        ∃ w, n.workList .trimap ⟨2, 1, 3, 2⟩ = .ok w ∧ (∀ r ∈ w.rects, ¬ r.Meets mixed.bounds) ∧
          w.reservedElsewhere = true := by
  have hb : mixed.bounds.Normal := by decide
  have hpart : (⟨2, 1, 3, 2⟩ : Rect) ⊆ ⟨1, 1, 5, 3⟩ := by decide
  obtain ⟨⟨w, n, hw, horder, _, _, hsecond⟩, htrimap⟩ :=
    one_round_finishes mixed_reachable hb ⟨1, 1, 5, 3⟩
  obtain ⟨w', n', hw', horder', _, _, hparts⟩ := htrimap rfl
  have hlist : mixed.workList .simple ⟨1, 1, 5, 3⟩ =
      .ok ⟨[⟨4, 1, 5, 3⟩, ⟨3, 1, 4, 3⟩, ⟨1, 1, 3, 3⟩], false⟩ := by cbv
  have hlist' : mixed.workList .trimap ⟨1, 1, 5, 3⟩ =
      .ok ⟨[⟨4, 1, 5, 3⟩, ⟨3, 1, 4, 3⟩, ⟨1, 2, 2, 3⟩], true⟩ := by cbv
  rw [hlist] at hw
  rw [hlist'] at hw'
  cases hw
  cases hw'
  have hround := horder' [⟨1, 2, 2, 3⟩, ⟨3, 1, 4, 3⟩, ⟨4, 1, 5, 3⟩] (by decide)
  refine ⟨mixed_reachable, hb, ⟨n, horder _ (by decide), ?_⟩, rfl, hpart, n', hround, ?_⟩
  · exact hsecond.trans (by cbv)
  · obtain ⟨u, hu, hout, hflag⟩ := hparts _ hpart
    refine ⟨u, hu, hout, hflag.mpr ⟨⟨2, 1⟩, by decide, by decide, ?_⟩⟩
    -- the round does not reach the pixel, so it is as it was
    have haccepts : mixed.config.Accepts .reserved := fun _ => rfl
    obtain ⟨k, hk, hmark⟩ := markEach_of_accepts [⟨1, 2, 2, 3⟩, ⟨3, 1, 4, 3⟩, ⟨4, 1, 5, 3⟩]
      mixed_reachable.sound.1 haccepts
    rw [hround] at hk
    cases hk
    rw [hmark.of_not_mem (by decide)]
    rfl

end PixelCoverage.CoverageMap
