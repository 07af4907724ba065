import PixelCoverage.Proofs.Steps
import PixelCoverage.Proofs.Uniform

/-!
# Tiled claims

Workers who only ever claim tiles, and the same tile as often as they like, do nothing twice.
For then what is known of a map is known tile by tile, which is the invariant `Tiled`: a tile
that a live claim lists is reserved, one that was completed is available, any other is
unrendered, and each is so as a whole. A claim of a tile finds it in one state and so takes
all of it or nothing.

There is one argument for the two ways of settling a claim: what is held comes apart into
what goes on to be held and what is let go, and only the latter is written.
-/

namespace PixelCoverage

open CoverageMap

/-- Tiles of some bounds: they have pixels, lie in the bounds, and no two of them meet. -/
structure Tiling (bounds : Rect) (tiles : List Rect) : Prop where
  nonempty : ∀ t ∈ tiles, ¬ t.IsEmpty
  within : ∀ t ∈ tiles, t ⊆ bounds
  apart : tiles.Pairwise fun t u => ¬ t.Meets u

namespace Tiling

variable {bounds t u : Rect} {tiles rects : List Rect} {p : Pixel} {m n : CoverageMap}
  {st k : PixelState}

theorem inRange (h : Tiling bounds tiles) (hb : bounds.InRange) (ht : t ∈ tiles) : t.InRange :=
  (Rect.within_of_subset (h.within t ht) (h.nonempty t ht)).inRange hb

/-- A pixel lies in one tile only. -/
theorem eq_of_mem (h : Tiling bounds tiles) (ht : t ∈ tiles) (hu : u ∈ tiles) (hpt : p ∈ t)
    (hpu : p ∈ u) : t = u := by
  by_contra hne
  have : Std.Symm fun t u : Rect => ¬ t.Meets u := by
    refine ⟨fun t u h => ?_⟩
    rw [Rect.not_meets_iff] at h ⊢
    exact fun p hp hp' => h p hp' hp
  exact Rect.not_meets_iff.mp (h.apart.forall ht hu hne) p hpt hpu

theorem listed_iff (h : Tiling bounds tiles) (hr : ∀ r ∈ rects, r ∈ tiles) (ht : t ∈ tiles)
    (hp : p ∈ t) : (∃ r ∈ rects, p ∈ r) ↔ t ∈ rects := by
  refine ⟨fun hl => ?_, fun htr => ⟨t, htr, hp⟩⟩
  obtain ⟨r, hrr, hpr⟩ := hl
  rw [h.eq_of_mem ht (hr r hrr) hp hpr]
  exact hrr

/-- A tile that is not marked keeps its state. -/
theorem uniform_of_not_mem (h : Tiling bounds tiles) (hr : ∀ r ∈ rects, r ∈ tiles)
    (hm : Marked rects st m n) (ht : t ∈ tiles) (hn : t ∉ rects) (hu : m.Uniform t k) :
    n.Uniform t k := by
  intro p hp
  rw [hm.of_not_mem fun hl => hn ((h.listed_iff hr ht hp).mp hl)]
  exact hu p hp

/-- A tile that is marked has the state. -/
theorem uniform_of_mem (h : Tiling m.bounds tiles) (hm : Marked rects st m n) (ht : t ∈ tiles)
    (hr : t ∈ rects) : n.Uniform t st :=
  fun _ hp => hm.of_mem (Rect.mem_of_subset (h.within t ht) hp) ⟨t, hr, hp⟩

end Tiling

namespace Site

variable {s u : Site} {bounds t : Rect} {tiles rects : List Rect} {done : List Claim}
  {live : List (String × Claim)} {name : String} {x : Step} {steps : List Step}

/-- A live claim lists the tile. -/
def Held (s : Site) (t : Rect) : Prop := ∃ e ∈ s.live, t ∈ e.2.work.rects

/-- One of the claims lists the tile. -/
def Finished (done : List Claim) (t : Rect) : Prop := ∃ c ∈ done, t ∈ c.work.rects

/-- A site at which all claims are of tiles, and those in `done` have been completed. -/
structure Tiled (tiles : List Rect) (done : List Claim) (s : Site) : Prop where
  listed : ∀ e ∈ s.live, ∀ t ∈ e.2.work.rects, t ∈ tiles
  /-- No tile is listed by two live claims. -/
  holder : ∀ e ∈ s.live, ∀ f ∈ s.live, ∀ t ∈ e.2.work.rects, t ∈ f.2.work.rects → e = f
  /-- No tile is completed twice. -/
  once : done.Pairwise fun c d => ∀ t ∈ c.work.rects, t ∉ d.work.rects
  held : ∀ t ∈ tiles, s.Held t → s.shared.map.Uniform t .reserved
  finished : ∀ t ∈ tiles, Finished done t → s.shared.map.Uniform t .available
  free : ∀ t ∈ tiles, ¬ s.Held t → ¬ Finished done t → s.shared.map.Uniform t .unrendered

theorem Tiled.not_finished (h : Tiled tiles done s) (hT : Tiling bounds tiles) (hh : s.Held t) :
    ¬ Finished done t := by
  intro hf
  obtain ⟨e, he, hte⟩ := hh
  have ht := h.listed e he t hte
  have hres := h.held t ht ⟨e, he, hte⟩
  exact absurd (hres.unique (h.finished t ht hf) (hT.nonempty t ht)) (by decide)

/-! ## What a claim of a tile lists -/

/-- What a claim of a tile lists and tells, by what has become of the tile. -/
inductive Answer (s : Site) (done : List Claim) (t : Rect) : WorkList → Prop where
  | held (h : s.Held t) : Answer s done t ⟨[], true⟩
  | finished (h : Finished done t) (hn : ¬ s.Held t) : Answer s done t ⟨[], false⟩
  | free (h : ¬ s.Held t) (hn : ¬ Finished done t) : Answer s done t ⟨[t], false⟩

theorem Tiled.answer {w : WorkList} (h : Tiled tiles done s)
    (hT : Tiling s.shared.map.bounds tiles) (hs : s.Working)
    (hn : s.shared.map.restriction = none) (ht : t ∈ tiles)
    (hw : s.shared.map.workList .trimap t = .ok w) : Answer s done t w := by
  have hnarrow : s.shared.map.narrowed t = t := by rw [narrowed, hn]
  have hlist : ∀ {st}, s.shared.map.Uniform t st → w = allOrNothing t st := by
    intro st hu
    have hall := @workList_of_uniform _ t st hs.claimable.sound hs.claimable.normal
    rw [hnarrow, hw] at hall
    exact Except.ok.inj (hall (hT.within t ht) (hT.nonempty t ht) hu)
  by_cases hh : s.Held t
  · rw [hlist (h.held t ht hh)]
    exact .held hh
  by_cases hf : Finished done t
  · rw [hlist (h.finished t ht hf)]
    exact .finished hf hh
  · rw [hlist (h.free t ht hh hf)]
    exact .free hh hf

/-- A tile that is listed is taken by nobody. -/
theorem Answer.of_mem {w : WorkList} {r : Rect} (h : Answer s done t w) (hr : r ∈ w.rects) :
    r = t ∧ ¬ s.Held r ∧ ¬ Finished done r := by
  cases h with
  | held | finished => exact absurd hr List.not_mem_nil
  | free h hn =>
    cases List.mem_singleton.mp hr
    exact ⟨rfl, h, hn⟩

/-- A new claim of a tile. -/
theorem Tiled.claimed {c : Claim} {v : Shared} {roi : Rect} (h : Tiled tiles done s)
    (hT : Tiling s.shared.map.bounds tiles) (hroi : roi ∈ tiles) (ha : Answer s done roi c.work)
    (hm : Marked c.work.rects .reserved s.shared.map v.map) (name : String) :
    Tiled tiles done ⟨v, (name, c) :: s.live⟩ := by
  have hlisted : ∀ t ∈ c.work.rects, t ∈ tiles := fun t ht => (ha.of_mem ht).1 ▸ hroi
  have hheld : ∀ t, Held ⟨v, (name, c) :: s.live⟩ t ↔ t ∈ c.work.rects ∨ s.Held t :=
    fun t => List.exists_mem_cons_iff ..
  refine
    { listed := List.forall_mem_cons.mpr ⟨hlisted, h.listed⟩, holder := ?holder, once := h.once,
      held := ?held, finished := ?finished, free := ?free }
  case holder =>
    intro e he f hf t hte htf
    rcases List.mem_cons.mp he with rfl | he <;> rcases List.mem_cons.mp hf with rfl | hf
    · rfl
    · exact absurd ⟨f, hf, htf⟩ (ha.of_mem hte).2.1
    · exact absurd ⟨e, he, hte⟩ (ha.of_mem htf).2.1
    · exact h.holder e he f hf t hte htf
  case held =>
    intro t ht hh
    by_cases htc : t ∈ c.work.rects
    · exact hT.uniform_of_mem hm ht htc
    · have hold := ((hheld t).mp hh).resolve_left htc
      exact hT.uniform_of_not_mem hlisted hm ht htc (h.held t ht hold)
  case finished =>
    intro t ht hf
    have htc : t ∉ c.work.rects := fun htc => (ha.of_mem htc).2.2 hf
    exact hT.uniform_of_not_mem hlisted hm ht htc (h.finished t ht hf)
  case free =>
    intro t ht hh hf
    rw [hheld, not_or] at hh
    exact hT.uniform_of_not_mem hlisted hm ht hh.1 (h.free t ht hh.2 hf)

/-! ## What is let go -/

/-- What is held comes apart into what the claims in `live` hold and what is let go. -/
structure LetsGo (s : Site) (live : List (String × Claim)) (rects : List Rect) : Prop where
  stay : ∀ e ∈ live, e ∈ s.live
  held : ∀ t, s.Held t ↔ (∃ e ∈ live, t ∈ e.2.work.rects) ∨ t ∈ rects
  apart : ∀ t ∈ rects, ∀ e ∈ live, t ∉ e.2.work.rects

theorem Tiled.letsGo (h : Tiled tiles done s) (hs : s.Working) (name : String) :
    s.LetsGo (s.others name) (s.rectsOf name) where
  stay e he := (mem_others.mp he).1
  held t := by
    refine ⟨fun hh => ?_, fun hh => ?_⟩
    · obtain ⟨e, he, hte⟩ := hh
      by_cases hname : e.1 = name
      · have hc := claim?_of_mem hs.guarded.names he
        exact Or.inr (mem_rectsOf.mpr ⟨e.2, hname ▸ hc, hte⟩)
      · exact Or.inl ⟨e, mem_others.mpr ⟨he, hname⟩, hte⟩
    · rcases hh with ⟨e, he, hte⟩ | hr
      · exact ⟨e, (mem_others.mp he).1, hte⟩
      · obtain ⟨c, hc, htc⟩ := mem_rectsOf.mp hr
        exact ⟨_, mem_of_claim? hc, htc⟩
  apart t hr e he hte := by
    obtain ⟨c, hc, htc⟩ := mem_rectsOf.mp hr
    obtain ⟨he, hne⟩ := mem_others.mp he
    exact hne (congrArg Prod.fst (h.holder e he _ (mem_of_claim? hc) t hte htc))

/-- A claim of something that is not held stays out of what is let go. -/
theorem LetsGo.cons {e : String × Claim} (h : s.LetsGo live rects) (v : Shared)
    (hnew : ∀ t ∈ e.2.work.rects, ¬ s.Held t) :
    LetsGo ⟨v, e :: s.live⟩ (e :: live) rects where
  stay := List.forall_mem_cons.mpr
    ⟨List.mem_cons_self, fun f hf => List.mem_cons_of_mem e (h.stay f hf)⟩
  held t := by
    rw [Held, List.exists_mem_cons_iff, List.exists_mem_cons_iff, or_assoc]
    exact or_congr_right (h.held t)
  apart t ht := List.forall_mem_cons.mpr
    ⟨fun hte => hnew t hte ((h.held t).mpr (Or.inr ht)), h.apart t ht⟩

/-- What is let go is written, and has been completed if it is rendered. -/
theorem Tiled.settled {new : List Claim} {v : Shared} (rendered : Bool)
    (h : Tiled tiles done s) (hT : Tiling s.shared.map.bounds tiles)
    (hgo : s.LetsGo live rects)
    (hm : Marked rects (if rendered then .available else .unrendered) s.shared.map v.map)
    (honce : new.Pairwise fun c d => ∀ t ∈ c.work.rects, t ∉ d.work.rects)
    (hnew : ∀ t, Finished new t ↔ rendered = true ∧ t ∈ rects) :
    Tiled tiles (done ++ new) ⟨v, live⟩ := by
  have hlet : ∀ t ∈ rects, s.Held t := fun t ht => (hgo.held t).mpr (Or.inr ht)
  have hlisted : ∀ t ∈ rects, t ∈ tiles := fun t ht =>
    have ⟨e, he, hte⟩ := hlet t ht
    h.listed e he t hte
  have hfin : ∀ t, Finished (done ++ new) t ↔ Finished done t ∨ rendered = true ∧ t ∈ rects := by
    intro t
    rw [← hnew t]
    simp only [Finished, List.mem_append, or_and_right, exists_or]
  refine
    { listed := fun e he => h.listed e (hgo.stay e he)
      holder := fun e he f hf => h.holder e (hgo.stay e he) f (hgo.stay f hf)
      once := ?once, held := ?held, finished := ?finished, free := ?free }
  case once =>
    refine List.pairwise_append.mpr ⟨h.once, honce, fun c hc d hd t htc htd => ?_⟩
    have hr := ((hnew t).mp ⟨d, hd, htd⟩).2
    exact h.not_finished hT (hlet t hr) ⟨c, hc, htc⟩
  case held =>
    intro t ht hh
    obtain ⟨e, he, hte⟩ := hh
    have hout : t ∉ rects := fun hr => hgo.apart t hr e he hte
    exact hT.uniform_of_not_mem hlisted hm ht hout (h.held t ht ⟨e, hgo.stay e he, hte⟩)
  case finished =>
    intro t ht hf
    rcases (hfin t).mp hf with hf | ⟨rfl, hr⟩
    · have hout : t ∉ rects := fun hr => h.not_finished hT (hlet t hr) hf
      exact hT.uniform_of_not_mem hlisted hm ht hout (h.finished t ht hf)
    · exact hT.uniform_of_mem hm ht hr
  case free =>
    intro t ht hh hf
    rw [hfin, not_or, not_and'] at hf
    by_cases hr : t ∈ rects
    · -- it is let go without being finished, so it is not rendered
      rw [Bool.not_eq_true] at hf
      rw [hf.2 hr] at hm
      exact hT.uniform_of_mem hm ht hr
    · have hfree : ¬ s.Held t := fun hold => ((hgo.held t).mp hold).elim hh hr
      exact hT.uniform_of_not_mem hlisted hm ht hr (h.free t ht hfree hf.1)

/-- Nothing is completed where pixels are freed. -/
theorem Tiled.freed {v : Shared} (h : Tiled tiles done s) (hT : Tiling s.shared.map.bounds tiles)
    (hgo : s.LetsGo live rects) (hm : Marked rects .unrendered s.shared.map v.map) :
    Tiled tiles done ⟨v, live⟩ := by
  have hnew : ∀ t, Finished [] t ↔ false = true ∧ t ∈ rects := by simp [Finished]
  have hend := h.settled false hT hgo hm List.Pairwise.nil hnew
  rwa [List.append_nil] at hend

/-! ## Steps and runs -/

/-- A step that works on the map through claims of tiles only. -/
def Step.OnTiles (tiles : List Rect) : Step → Prop
  | .claim _ roi => roi ∈ tiles
  | .complete _ | .abort _ | .drop _ => True
  | .markAvailable _ | .clear _ | .setRestriction _ => False

instance : DecidablePred (Step.OnTiles tiles)
  | .claim _ roi => inferInstanceAs (Decidable (roi ∈ tiles))
  | .complete _ | .abort _ | .drop _ => isTrue trivial
  | .markAvailable _ | .clear _ | .setRestriction _ => isFalse id

theorem Step.OnTiles.byClaim (h : x.OnTiles tiles) : x.ByClaim := by
  cases x with
  | claim | complete | abort | drop => trivial
  | markAvailable | clear | setRestriction => exact h

/-- **Every step keeps the tiles in order.** -/
theorem Tiled.step (h : Tiled tiles done s) (hT : Tiling s.shared.map.bounds tiles)
    (hs : s.Working) (hn : s.shared.map.restriction = none) (hx : x.OnTiles tiles)
    (hl : s.Leaves x u) : Tiled tiles (done ++ (s.completed x).toList) u := by
  cases hl with
  | @claim name roi c v _ _ listed reserved freed =>
    have ha := h.answer hT hs hn hx listed
    -- the new claim is in place before the one that had its name is let go
    have hgo : LetsGo ⟨v, (name, c) :: s.live⟩ _ _ :=
      (h.letsGo hs name).cons v fun t ht => (ha.of_mem ht).2.1
    have hT' : Tiling v.map.bounds tiles := reserved.bounds ▸ hT
    exact (List.append_nil done).symm ▸ (h.claimed hT hx ha reserved name).freed hT' hgo freed
  | @complete name _ settled =>
    refine h.settled true hT (h.letsGo hs name) settled ?_ fun t => ?_
    · cases hc : s.claim? name <;> simp [completed, hc]
    · simp [Finished, completed, mem_rectsOf]
  | @abort name _ freed | @drop name _ freed =>
    exact (List.append_nil done).symm ▸ h.freed hT (h.letsGo hs name) freed
  | markAvailable | clear | setRestriction => exact absurd hx id

theorem Step.OnTiles.inRange (h : x.OnTiles tiles) (hT : Tiling bounds tiles)
    (hb : bounds.InRange) : x.InRange := by
  cases x with
  | claim name roi => exact hT.inRange hb h
  | complete | abort | drop => trivial
  | markAvailable | clear | setRestriction => exact absurd h id

theorem Blank.tiled (hs : s.Blank) (hT : Tiling s.shared.map.bounds tiles) :
    Tiled tiles [] s := by
  have hnone : ∀ e, e ∉ s.live := fun e he => absurd (hs.live ▸ he) List.not_mem_nil
  refine
    { listed := fun e he => absurd he (hnone e), holder := fun e he => absurd he (hnone e)
      once := List.Pairwise.nil, held := ?held, finished := ?finished, free := ?free }
  case held =>
    intro t ht hh
    obtain ⟨e, he, _⟩ := hh
    exact absurd he (hnone e)
  case finished =>
    intro t ht hf
    obtain ⟨c, hc, _⟩ := hf
    exact absurd hc List.not_mem_nil
  case free =>
    intro t ht _ _ p hp
    exact hs.unrendered p (Rect.mem_of_subset (hT.within t ht) hp)

theorem Blank.tiled_run (hs : s.Blank) (hb : s.shared.map.bounds.Normal)
    (hn : s.shared.map.restriction = none) (hT : Tiling s.shared.map.bounds tiles)
    (hx : ∀ x ∈ steps, x.OnTiles tiles) : Tiled tiles (s.completions steps) (s.run steps) := by
  have hr : ∀ x ∈ steps, x.InRange := fun x h => (hx x h).inRange hT hs.sound.2
  have hw := hs.working hb
  refine hw.run_induction (P := fun before => Tiled tiles (s.completions before) (s.run before))
    hr (hs.tiled hT) fun before x hp hwork hl ih => ?_
  have hbefore : ∀ y ∈ before, y ∈ steps :=
    fun y hy => hp.subset (List.mem_append_left [x] hy)
  have hbounds := hw.bounds_run fun y hy => hr y (hbefore y hy)
  have hrest := hw.restriction_run (fun y hy => hr y (hbefore y hy))
    fun y hy => (hx y (hbefore y hy)).byClaim
  rw [completions_concat]
  exact ih.step (hbounds.symm ▸ hT) hwork (hrest.trans hn)
    (hx x (hp.subset List.mem_concat_self)) hl

/-- No pixel is listed by two live claims of tiles. -/
theorem Tiled.live_pairwise (h : Tiled tiles done s) (hT : Tiling bounds tiles) (hs : s.Working) :
    s.live.Pairwise fun e f => ∀ p, e.2.Lists p → ¬ f.2.Lists p := by
  refine (List.pairwise_map.mp hs.guarded.names).imp_of_mem fun {e f} he hf hne p hep hfp => ?_
  obtain ⟨t, hte, hpt⟩ := hep
  obtain ⟨u, huf, hpu⟩ := hfp
  have heq := hT.eq_of_mem (h.listed e he t hte) (h.listed f hf u huf) hpt hpu
  exact hne (congrArg Prod.fst (h.holder e he f hf t hte (heq ▸ huf)))

/-- **Tiles are rendered once.** Whatever the workers do and in whatever order, a claim of a
tile takes all of it if it is neither held nor finished, and nothing if it is, and is told to
wait exactly when it is held. No pixel is in two hands, and no tile is completed twice. -/
theorem tiles_exclusive (hs : s.Blank) (hb : s.shared.map.bounds.Normal)
    (hn : s.shared.map.restriction = none) (hT : Tiling s.shared.map.bounds tiles)
    (hsteps : ∀ x ∈ steps, x.OnTiles tiles) :
    (∀ t ∈ tiles, ∃ c v, Claim.take t (s.run steps).shared = .ok c v ∧
      ((c.work.rects = [t] ∧ c.work.reservedElsewhere = false) ∨ c.IsIdle) ∧
      (c.work.rects = [t] ↔ ¬ (s.run steps).Held t ∧ ¬ Finished (s.completions steps) t) ∧
      (c.IsIdle → (c.work.reservedElsewhere = true ↔ (s.run steps).Held t))) ∧
    ((s.run steps).live.Pairwise fun e f => ∀ p, e.2.Lists p → ¬ f.2.Lists p) ∧
    (s.completions steps).Pairwise fun c d => ∀ t ∈ c.work.rects, t ∉ d.work.rects := by
  have hr : ∀ x ∈ steps, x.InRange := fun x h => (hsteps x h).inRange hT hs.sound.2
  have hw := (hs.working hb).run hr
  have hrest := ((hs.working hb).restriction_run hr fun x h => (hsteps x h).byClaim).trans hn
  have hT' : Tiling (s.run steps).shared.map.bounds tiles :=
    ((hs.working hb).bounds_run hr).symm ▸ hT
  have h := hs.tiled_run hb hn hT hsteps
  refine ⟨fun t ht => ?_, h.live_pairwise hT hw, h.once⟩
  obtain ⟨⟨w, d⟩, v, htake, hlist, _⟩ :=
    Claim.take_of_claimable hw.claimable (hT.inRange hs.sound.2 ht)
  refine ⟨_, v, htake, ?_⟩
  cases h.answer hT' hw hrest ht hlist with
  | held hh => simp [Claim.IsIdle, hh]
  | finished hf hh => simp [Claim.IsIdle, hf, hh]
  | free hh hf => simp [Claim.IsIdle, hf, hh]

/-- The two halves of the fresh map. -/
def halves : List Rect := [⟨0, 0, 2, 4⟩, ⟨2, 0, 4, 4⟩]

/-- One half is claimed by two workers and completed by the first of them; the other half is
given up, and claimed again. -/
def onHalves : List Step :=
  [.claim "a" ⟨0, 0, 2, 4⟩, .claim "b" ⟨0, 0, 2, 4⟩, .claim "c" ⟨2, 0, 4, 4⟩, .complete "a",
    .drop "c", .claim "d" ⟨2, 0, 4, 4⟩]

theorem tiles_exclusive_halves :
    fresh.Blank ∧ Tiling fresh.shared.map.bounds halves ∧ (∀ x ∈ onHalves, x.OnTiles halves) ∧
      (∃ c v, Claim.take ⟨0, 0, 2, 4⟩ (fresh.run onHalves).shared = .ok c v ∧ c.IsIdle ∧
        c.work.reservedElsewhere = false ∧ ¬ (fresh.run onHalves).Held ⟨0, 0, 2, 4⟩) ∧
      (∃ c v, Claim.take ⟨2, 0, 4, 4⟩ (fresh.run onHalves).shared = .ok c v ∧ c.IsIdle ∧
        c.work.reservedElsewhere = true ∧ (fresh.run onHalves).Held ⟨2, 0, 4, 4⟩) ∧
      (fresh.run onHalves).live.Pairwise fun e f => ∀ p, e.2.Lists p → ¬ f.2.Lists p := by
  have hT : Tiling fresh.shared.map.bounds halves := ⟨by decide, by decide, by decide⟩
  have hsteps : ∀ x ∈ onHalves, x.OnTiles halves := by decide
  obtain ⟨hall, hlive, _⟩ := tiles_exclusive fresh_blank (by decide) rfl hT hsteps
  obtain ⟨c, v, hc, _, _, hleft⟩ := hall ⟨0, 0, 2, 4⟩ (by decide)
  obtain ⟨d, w, hd, _, _, hright⟩ := hall ⟨2, 0, 4, 4⟩ (by decide)
  have hc' : Claim.take ⟨0, 0, 2, 4⟩ (fresh.run onHalves).shared =
      .ok ⟨⟨[], false⟩, false⟩ (fresh.run onHalves).shared := by cbv
  have hd' : Claim.take ⟨2, 0, 4, 4⟩ (fresh.run onHalves).shared =
      .ok ⟨⟨[], true⟩, false⟩ (fresh.run onHalves).shared := by cbv
  rw [hc'] at hc
  rw [hd'] at hd
  cases hc
  cases hd
  exact ⟨fresh_blank, hT, hsteps, ⟨_, _, hc', rfl, rfl, mt (hleft rfl).mpr (by simp)⟩,
    ⟨_, _, hd', rfl, rfl, (hright rfl).mp rfl⟩, hlive⟩

end Site

end PixelCoverage
