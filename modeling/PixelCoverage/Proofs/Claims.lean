import PixelCoverage.Claim.Basic
import PixelCoverage.Proofs.Cover
import PixelCoverage.Proofs.Edits

/-!
# What claims do to a map

A write of a rectangle does all or nothing. So the writes of a claim are either refused as
a whole, or they all go through: what refuses one of them, a grid without its cells or a map
that takes no reservations, refuses every one that has a pixel to write.

The log is where the rest of the faults come from. A record is made after the pixels are
written and never changes the map, so a fault there leaves the pixels as they should be.
-/

namespace PixelCoverage

open Update

/-! ## The writes of a claim -/

namespace Shared

variable {s t : Shared} {st : PixelState} {rects : List Rect} {b : Rect}

/-- One of the writes of a claim. -/
def writePart (b : Rect) (st : PixelState) (r : Rect) : Update Shared Unit := do
  unless (r ∩ b).IsEmpty do
    onMap (CoverageMap.write (r ∩ b) st)

theorem writeClipped_eq (rects : List Rect) (st : PixelState) (s : Shared) :
    writeClipped rects st s = rects.forM (writePart s.map.bounds st) s := rfl

theorem writePart_of_isEmpty {r : Rect} (h : (r ∩ b).IsEmpty) (s : Shared) :
    writePart b st r s = .ok () s := by
  unfold writePart
  rw [if_pos h]
  rfl

/-- Whether a part without pixels is written or passed over makes no difference. -/
theorem writePart_of_accepts (r : Rect) (hb : s.map.bounds = b) (hs : s.map.grid.Sized)
    (ha : s.map.config.Accepts st) :
    ∃ g, writePart b st r s = .ok () { s with map := { s.map with grid := g } } ∧
      CoverageMap.Marked [r] st s.map { s.map with grid := g } := by
  obtain ⟨g, hw, hmark⟩ := CoverageMap.write_inter_bounds r hs ha
  refine ⟨g, ?_, hmark⟩
  rw [hb] at hw
  by_cases he : (r ∩ b).IsEmpty
  · rw [CoverageMap.write_of_isEmpty hs he ha] at hw
    have hsame : s.map = { s.map with grid := g } := (EStateM.Result.ok.inj hw).2
    rw [writePart_of_isEmpty he, ← hsame]
  · unfold writePart
    rw [if_neg he]
    exact onPart_of_ok hw

/-- The writes of a claim go through one after the other. -/
theorem writeClipped_of_accepts (rects : List Rect) (hs : s.map.grid.Sized)
    (ha : s.map.config.Accepts st) :
    ∃ g, writeClipped rects st s = .ok () { s with map := { s.map with grid := g } } ∧
      CoverageMap.Marked rects st s.map { s.map with grid := g } := by
  rw [writeClipped_eq]
  generalize hb : s.map.bounds = b
  induction rects generalizing s with
  | nil => exact ⟨s.map.grid, rfl, .refl hs st⟩
  | cons r rects ih =>
    obtain ⟨g, hr, hmark⟩ := writePart_of_accepts r hb hs ha
    obtain ⟨g', hr', hmark'⟩ := ih (s := { s with map := { s.map with grid := g } })
      hmark.sized ha (hmark.bounds.trans hb)
    refine ⟨g', ?_, hmark.append hmark'⟩
    rw [forM_cons_of_ok hr]
    exact hr'

/-- Nothing is written of rectangles that have no pixel in the bounds. -/
theorem writeClipped_of_apart (st : PixelState) (h : ∀ r ∈ rects, ¬ r.Meets s.map.bounds) :
    writeClipped rects st s = .ok () s := by
  rw [writeClipped_eq]
  induction rects with
  | nil => rfl
  | cons r rects ih =>
    obtain ⟨hr, h⟩ := List.forall_mem_cons.mp h
    rw [forM_cons_of_ok (writePart_of_isEmpty (Classical.not_not.mp hr) s)]
    exact ih h

/-- The first rectangle that has one is refused if the map does not take the state. -/
theorem writeClipped_of_not_accepts (ha : ¬ s.map.config.Accepts st)
    (h : ∃ r ∈ rects, r.Meets s.map.bounds) :
    writeClipped rects st s = .error .reservationsDisabled s := by
  rw [writeClipped_eq]
  induction rects with
  | nil => exact absurd h (by simp)
  | cons r rects ih =>
    by_cases he : (r ∩ s.map.bounds).IsEmpty
    · rw [forM_cons_of_ok (writePart_of_isEmpty he s)]
      exact ih (by simpa [Rect.Meets, he] using h)
    · have hw := CoverageMap.write_of_not_accepts (Rect.inter_subset_right r s.map.bounds) ha
      refine forM_cons_of_error ?_
      unfold writePart
      rw [if_neg he]
      exact onPart_of_error hw

/-- Writes that are refused leave everything as it was. -/
theorem writeClipped_of_refused (rects : List Rect)
    (h : ¬ (s.map.grid.Sized ∧ s.map.config.Accepts st)) : (writeClipped rects st).left s = s := by
  rw [left, writeClipped_eq]
  induction rects with
  | nil => rfl
  | cons r rects ih =>
    by_cases he : (r ∩ s.map.bounds).IsEmpty
    · rw [forM_cons_of_ok (writePart_of_isEmpty he s)]
      exact ih
    · have hno : ¬ (r ∩ s.map.bounds ⊆ s.map.bounds ∧ _) := fun h' => h h'.2
      obtain ⟨f, hw⟩ := CoverageMap.write_of_refused hno
      have hr : writePart s.map.bounds st r s = .error f s := by
        unfold writePart
        rw [if_neg he]
        exact onPart_of_error hw
      rw [forM_cons_of_error hr]

/-! ## Records -/

theorem keeps_record (level : Log.Level) (text : CoverageMap → Except Fault String)
    (m : CoverageMap) : Keeps (fun s => s.map = m) (record level text) :=
  Keeps.bind (fun _ h => h) fun _ =>
    Keeps.ite (fun _ => Keeps.bind (Keeps.query _) fun _ => Keeps.modify fun _ h => h)
      fun _ => Keeps.pure _

/-- A record whose level is not let through is left out, whatever its text. -/
theorem record_of_not_le {level : Log.Level} {text : CoverageMap → Except Fault String}
    (h : ¬ level ≤ s.maxLevel) : record level text s = .ok () s := by
  unfold record
  rw [get_bind_apply, if_neg h]
  rfl

/-- A record whose text can be made is made, or left out for its level. -/
theorem record_of_ok {level : Log.Level} {text : CoverageMap → Except Fault String}
    {line : String} (h : text s.map = .ok line) :
    ∃ log, record level text s = .ok () { s with log } := by
  by_cases hl : level ≤ s.maxLevel
  · have hq : query (fun s : Shared => text s.map) s = .ok line s := query_of_ok h
    refine ⟨s.log.push ⟨level, line⟩, ?_⟩
    unfold record
    rw [get_bind_apply, if_pos hl, bind_of_ok hq]
    rfl
  · exact ⟨s.log, record_of_not_le hl⟩

/-- A fault in a text comes up if the record would be kept. -/
theorem record_of_error {level : Log.Level} {text : CoverageMap → Except Fault String} {f : Fault}
    (hl : level ≤ s.maxLevel) (h : text s.map = .error f) : record level text s = .error f s := by
  have hq : query (fun s : Shared => text s.map) s = .error f s := query_of_error h
  unfold record
  rw [get_bind_apply, if_pos hl, bind_of_error hq]

section Bind

variable {level : Log.Level} {text : CoverageMap → Except Fault String} {line : String} {β : Type}
  {k : Unit → Update Shared β}

/-- After a record whose text can be made, things go on. -/
theorem record_bind {P : EStateM.Result Fault Shared β → Prop}
    (h : ∃ line, text s.map = .ok line) (hk : ∀ log, P (k () { s with log })) :
    P ((record level text >>= k) s) := by
  obtain ⟨line, h⟩ := h
  obtain ⟨log, hr⟩ : ∃ log, record level text s = .ok () { s with log } := record_of_ok h
  rw [bind_of_ok hr]
  exact hk log

theorem left_record_bind {P : Shared → Prop} (h : text s.map = .ok line)
    (hk : ∀ t, t.map = s.map → P ((k ()).left t)) : P ((record level text >>= k).left s) := by
  obtain ⟨log, hr⟩ : ∃ log, record level text s = .ok () { s with log } := record_of_ok h
  rw [left_bind, hr]
  exact hk _ rfl

end Bind

end Shared

/-! ## What ends a claim frees its pixels -/

namespace CoverageMap

/-- A reserved pixel is one that writes reach. -/
def Solid (m : CoverageMap) : Prop := ∀ p, m.grid.get? p = some .reserved → m.grid.Sized

/-- `n` has come from `m` without a new reservation, and has none left in the rectangles. -/
structure Freed (rects : List Rect) (m n : CoverageMap) : Prop where
  bounds : n.bounds = m.bounds
  solid : n.Solid
  reserved : ∀ p, n.grid.get? p = some .reserved →
    m.grid.get? p = some .reserved ∧ ∀ r ∈ rects, p ∉ r

/-- `n` has come from `m` without a new reservation outside the rectangles. -/
structure Claimed (rects : List Rect) (m n : CoverageMap) : Prop where
  bounds : n.bounds = m.bounds
  solid : n.Solid
  reserved : ∀ p, n.grid.get? p = some .reserved →
    m.grid.get? p = some .reserved ∨ ∃ r ∈ rects, p ∈ r

theorem Freed.refl {m : CoverageMap} (hm : m.Solid) : Freed [] m m :=
  ⟨rfl, hm, fun _ h => ⟨h, fun _ hr => absurd hr List.not_mem_nil⟩⟩

theorem Claimed.refl {m : CoverageMap} (rects : List Rect) (hm : m.Solid) : Claimed rects m m :=
  ⟨rfl, hm, fun _ h => Or.inl h⟩

end CoverageMap

namespace Shared

variable {s : Shared} {st : PixelState}

theorem freed_of_writeClipped (rects : List Rect) (hst : st ≠ .reserved) (hm : s.map.Solid) :
    CoverageMap.Freed rects s.map ((writeClipped rects st).left s).map := by
  have ha : s.map.config.Accepts st := fun h => absurd h hst
  by_cases hs : s.map.grid.Sized
  · obtain ⟨g, hw, hmark⟩ := writeClipped_of_accepts rects hs ha
    rw [left_of_ok hw]
    refine ⟨hmark.bounds, fun _ _ => hmark.sized, fun p hp => ?_⟩
    obtain ⟨hold, hout⟩ := hmark.kept hp hst.symm
    exact ⟨hold, fun r hr hpr => hout ⟨r, hr, hpr⟩⟩
  · rw [writeClipped_of_refused rects fun h => hs h.1]
    exact ⟨rfl, hm, fun p hp => absurd (hm p hp) hs⟩

theorem claimed_of_writeClipped (rects : List Rect) (hm : s.map.Solid) :
    CoverageMap.Claimed rects s.map ((writeClipped rects .reserved).left s).map := by
  by_cases h : s.map.grid.Sized ∧ s.map.config.Accepts .reserved
  · obtain ⟨g, hw, hmark⟩ := writeClipped_of_accepts rects h.1 h.2
    rw [left_of_ok hw]
    refine ⟨hmark.bounds, fun _ _ => hmark.sized, fun p hp => ?_⟩
    by_cases hr : ∃ r ∈ rects, p ∈ r
    · exact Or.inr hr
    · exact Or.inl ((hmark.of_not_mem hr).symm.trans hp)
  · rw [writeClipped_of_refused rects h]
    exact CoverageMap.Claimed.refl rects hm

/-- Somebody who writes a rectangle past the claims reserves nothing. -/
theorem freed_of_write (rect : Rect) (hst : st ≠ .reserved) (hm : s.map.Solid) :
    CoverageMap.Freed [] s.map ((onMap (CoverageMap.write rect st)).left s).map := by
  rw [onMap, left_onPart]
  by_cases h : rect ⊆ s.map.bounds ∧ s.map.grid.Sized ∧ s.map.config.Accepts st
  · obtain ⟨g, hw, hb, hg, hget⟩ := CoverageMap.write_of_accepts h.2.1 h.1 h.2.2
    rw [left_of_ok hw]
    refine ⟨hb, fun _ _ => hg, fun p hp => ⟨?_, fun r hr => absurd hr List.not_mem_nil⟩⟩
    rw [hget p] at hp
    by_cases hr : p ∈ rect
    · rw [if_pos hr] at hp
      exact absurd (Option.some.inj hp) hst
    · rw [if_neg hr] at hp
      exact hp
  · obtain ⟨f, hw⟩ := CoverageMap.write_of_refused h
    rw [left_of_error hw]
    exact CoverageMap.Freed.refl hm

end Shared

namespace Claim

variable {c : Claim} {s : Shared}

/-- The map that a claim leaves when it is settled. -/
theorem map_left_settle (c : Claim) (rendered : Bool) (s : Shared) :
    ((c.settle rendered).left s).map =
      ((Shared.writeClipped c.work.rects (if rendered then .available else .unrendered)).left
        s).map := by
  unfold settle
  by_cases hi : c.IsIdle
  · rw [if_pos hi]
    have hr : c.work.rects = [] := hi
    rw [hr]
    rfl
  · rw [if_neg hi]
    refine left_bind_of_keeps (f := Shared.map) (fun _ m => ?_) s
    exact Keeps.bind (Shared.keeps_record _ _ m) fun _ => Keeps.pure _

theorem freed_of_settle (c : Claim) (rendered : Bool) (hm : s.map.Solid) :
    CoverageMap.Freed c.work.rects s.map ((c.settle rendered).left s).map := by
  rw [map_left_settle]
  exact Shared.freed_of_writeClipped _ (by cases rendered <;> simp) hm

theorem settled_of_settle {rendered : Bool} {d : Claim} {t : Shared}
    (h : c.settle rendered s = .ok d t) : d.settled = true := by
  unfold settle at h
  by_cases hi : c.IsIdle
  · rw [if_pos hi] at h
    cases h
    rfl
  · rw [if_neg hi] at h
    obtain ⟨_, _, _, h⟩ := bind_eq_ok h
    obtain ⟨_, _, _, h⟩ := bind_eq_ok h
    cases h
    rfl

/-- There is nothing more to do for a claim that is settled. -/
theorem drop_of_settled (h : c.settled = true) (s : Shared) : c.drop s = .ok () s := by
  unfold drop
  rw [if_pos (Or.inl h)]
  rfl

theorem left_settle_drop (c : Claim) (rendered : Bool) (s : Shared) :
    (c.settle rendered >>= drop).left s = (c.settle rendered).left s := by
  rw [left_bind, left]
  cases h : c.settle rendered s with
  | ok d t => exact left_of_ok (drop_of_settled (settled_of_settle h) t)
  | error f t => rfl

theorem freed_of_complete (c : Claim) (hm : s.map.Solid) :
    CoverageMap.Freed c.work.rects s.map (c.complete.left s).map := by
  rw [complete, left_settle_drop]
  exact freed_of_settle c true hm

theorem freed_of_abort (c : Claim) (hm : s.map.Solid) :
    CoverageMap.Freed c.work.rects s.map (c.abort.left s).map := by
  rw [abort, left_settle_drop]
  exact freed_of_settle c false hm

/-- A claim that is lost leaves what it would if it were aborted, if nobody has settled it. -/
theorem left_drop {P : CoverageMap → Prop} (hc : c.settled = false)
    (h : ∀ t, t.map = s.map → P ((c.settle false).left t).map) : P (c.drop.left s).map := by
  unfold drop
  by_cases hi : c.IsIdle
  · have hmap := h s rfl
    rw [map_left_settle] at hmap
    have hr : c.work.rects = [] := hi
    rw [hr] at hmap
    rw [if_pos (Or.inr hi)]
    exact hmap
  · rw [if_neg (by simp [hc, hi])]
    -- the warning can always be put into words, so the pixels are reached
    refine Shared.left_record_bind (P := fun t => P t.map) rfl fun t ht => ?_
    rw [left_bind_of_keeps (f := Shared.map) (fun _ _ => Shared.keeps_record _ _ _)]
    exact h t ht

theorem freed_of_drop (hc : c.settled = false) (hm : s.map.Solid) :
    CoverageMap.Freed c.work.rects s.map (c.drop.left s).map := by
  refine left_drop hc fun t ht => ?_
  rw [← ht]
  exact freed_of_settle c false (ht ▸ hm)

/-! ## What a claim takes -/

/-- A claim that is taken lists the work of the region and has reserved it. -/
theorem take_eq_ok {roi : Rect} {t : Shared} (h : take roi s = .ok c t) :
    c.settled = false ∧ s.map.workList .trimap roi = .ok c.work ∧
      t.map = ((Shared.writeClipped c.work.rects .reserved).left s).map := by
  obtain ⟨w, s₁, hq, h⟩ := bind_eq_ok h
  obtain ⟨_, s₂, hw, h⟩ := bind_eq_ok h
  obtain ⟨_, s₃, hr, h⟩ := bind_eq_ok h
  obtain ⟨hq, heq⟩ := query_eq_ok hq
  rw [heq] at hw
  cases h
  refine ⟨rfl, hq, ?_⟩
  rw [left_of_ok hw]
  exact left_of_ok hr ▸ Shared.keeps_record _ _ s₂.map s₂ rfl

/-- All of it could be written. -/
theorem written_of_take {roi : Rect} {t : Shared} (h : take roi s = .ok c t) :
    ∃ u, Shared.writeClipped c.work.rects .reserved s = .ok () u := by
  obtain ⟨w, s₁, hq, h⟩ := bind_eq_ok h
  obtain ⟨_, s₂, hw, h⟩ := bind_eq_ok h
  obtain ⟨_, s₃, _, h⟩ := bind_eq_ok h
  obtain ⟨_, heq⟩ := query_eq_ok hq
  rw [heq] at hw
  cases h
  exact ⟨s₂, hw⟩

theorem take_ok {roi : Rect} {t : Shared} (hm : s.map.Solid) (h : take roi s = .ok c t) :
    c.settled = false ∧ s.map.workList .trimap roi = .ok c.work ∧
      CoverageMap.Claimed c.work.rects s.map t.map ∧ (c.IsIdle → t.map = s.map) := by
  obtain ⟨hc, hw, hmap⟩ := take_eq_ok h
  refine ⟨hc, hw, ?_, fun hi => ?_⟩
  · rw [hmap]
    exact Shared.claimed_of_writeClipped c.work.rects hm
  · have hnil : c.work.rects = [] := hi
    rw [hmap, hnil]
    rfl

/-- The pixels of a claim can be counted. -/
theorem area_of_workList {m : CoverageMap} {roi : Rect} {w : WorkList} (hm : m.grid.Sound)
    (hn : m.bounds.Normal) (hroi : roi.InRange) (h : m.workList .trimap roi = .ok w) :
    ∃ n, w.area = .ok n := by
  obtain ⟨w', inside, hw, hl⟩ := CoverageMap.workList_listed hm .trimap roi
  rw [hw] at h
  cases h
  obtain ⟨n, ha, _⟩ := (hl.cover hn hroi).area
  exact ⟨n, ha⟩

/-- Whoever is told of others is told of a reserved pixel. -/
theorem exists_reserved_of_workList {m : CoverageMap} {roi : Rect} {w : WorkList}
    (hb : m.bounds.InRange) (h : m.workList .trimap roi = .ok w)
    (hf : w.reservedElsewhere = true) : ∃ p ∈ roi, m.grid.get? p = some .reserved := by
  rcases CoverageMap.sized_of_workList h with hs | hw
  · obtain ⟨w', inside, hw, hl⟩ := CoverageMap.workList_listed ⟨hs, hb⟩ .trimap roi
    rw [hw] at h
    cases h
    obtain ⟨p, hp, hres, _⟩ := hl.worked.told (hl.flag ▸ hf)
    have hin := CoverageMap.mem_narrowed.mp (CoverageMap.mem_inside.mp hp).1
    exact ⟨p, hin.1, hres⟩
  · rw [hw] at hf
    exact absurd hf (by simp)

/-- A claim that ends in a fault has left the map as it is after the writes. -/
theorem map_of_take_eq_error {roi : Rect} {t : Shared} {f : Fault} (h : take roi s = .error f t) :
    t.map = s.map ∨ ∃ w, s.map.workList .trimap roi = .ok w ∧
      t.map = ((Shared.writeClipped w.rects .reserved).left s).map := by
  rcases bind_eq_error h with h' | ⟨w, s₁, hq, h'⟩
  · exact Or.inl (by rw [(query_eq_error h').2])
  · obtain ⟨hq, heq⟩ := query_eq_ok hq
    rw [heq] at h'
    refine Or.inr ⟨w, hq, ?_⟩
    rw [← left_of_error h']
    exact left_bind_of_keeps (f := Shared.map)
      (fun _ m => Keeps.bind (Shared.keeps_record _ _ m) fun _ => Keeps.pure _) s

/-- If its rectangles can be written, a claim is taken, and lists them. -/
theorem take_of_written {roi : Rect} {w : WorkList} {u : Shared} (hm : s.map.grid.Sound)
    (hn : s.map.bounds.Normal) (hroi : roi.InRange) (hw : s.map.workList .trimap roi = .ok w)
    (hwrite : Shared.writeClipped w.rects .reserved s = .ok () u) :
    ∃ log, take roi s = .ok { work := w } { u with log } := by
  have hq : query (fun s : Shared => s.map.workList .trimap roi) s = .ok w s := query_of_ok hw
  obtain ⟨n, harea⟩ := area_of_workList hm hn hroi hw
  rw [take, bind_of_ok hq, bind_of_ok hwrite]
  refine Shared.record_bind (P := fun (r : EStateM.Result Fault Shared Claim) =>
    ∃ log, r = .ok { work := w } { u with log }) ?_ ?_
  · -- the record tells how many pixels are claimed, and these can be counted
    rw [harea]
    exact ⟨_, rfl⟩
  · exact fun log => ⟨log, rfl⟩

/-- Where reservations can be written, a claim can be taken of any region. -/
theorem exists_take {roi : Rect} (hm : s.map.grid.Sound) (hn : s.map.bounds.Normal)
    (ha : s.map.config.Accepts .reserved) (hroi : roi.InRange) :
    ∃ c t, take roi s = .ok c t := by
  obtain ⟨w, _, hw, _⟩ := CoverageMap.workList_listed hm .trimap roi
  obtain ⟨g, hwrite, _⟩ := Shared.writeClipped_of_accepts w.rects hm.1 ha
  obtain ⟨log, htake⟩ := take_of_written hm hn hroi hw hwrite
  exact ⟨_, _, htake⟩

/-- A claim that ends in a fault has reserved nothing. -/
theorem freed_of_take {roi : Rect} {t : Shared} {f : Fault} (hm : s.map.Solid)
    (hb : s.map.bounds.InRange) (hroi : roi.InRange) (h : take roi s = .error f t) :
    CoverageMap.Freed [] s.map t.map := by
  rcases map_of_take_eq_error h with hmap | ⟨w, hw, hmap⟩
  · rw [hmap]
    exact CoverageMap.Freed.refl hm
  by_cases ha : s.map.grid.Sized ∧ s.map.config.Accepts .reserved
  · -- a claim can be taken here, unless there is no pixel in the bounds
    have hc := Shared.claimed_of_writeClipped w.rects hm
    rw [← hmap] at hc
    refine ⟨hc.bounds, hc.solid, fun p hp => ?_⟩
    have hin : p ∈ s.map.bounds := hc.bounds ▸ Grid.mem_bounds_of_get? hp
    have hn := Rect.normal_of_not_isEmpty (Rect.not_isEmpty_iff_exists_mem.mpr ⟨p, hin⟩)
    obtain ⟨c, u, hok⟩ := exists_take ⟨ha.1, hb⟩ hn ha.2 hroi
    rw [hok] at h
    exact absurd h (by simp)
  · rw [Shared.writeClipped_of_refused w.rects ha] at hmap
    rw [hmap]
    exact CoverageMap.Freed.refl hm

end Claim

end PixelCoverage
