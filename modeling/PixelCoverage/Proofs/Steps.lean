import PixelCoverage.Proofs.Marks
import PixelCoverage.Proofs.Reservation

/-!
# What a step leaves of a site

`Leaves` says once what each step can do to a map on which claims can be taken: which pixels
it marks with what, and which claims are live afterwards. The statements about runs need
nothing else of a step, so they are proved by `Working.run_induction` with one case for each
of its constructors.

A name that is taken again loses the claim that had it. So `claim` is the one step that may
mark twice: the new claim reserves its rectangles first, and then the old one frees its own.

What has happened in a run is read off its steps: `completions` are the claims that were
completed, `givenUp` is the claim that a step gives up, and `LiveSince` says of a claim that
nothing has ended it.
-/

namespace PixelCoverage.Site

open Update CoverageMap

variable {s t : Site} {x : Step} {steps : List Step} {name : String} {p : Pixel}

/-! ## Steps -/

/-- What the live claim of a name lists; nothing if there is none. -/
def rectsOf (s : Site) (name : String) : List Rect :=
  match s.claim? name with
  | none => []
  | some c => c.work.rects

/-- The live claims under other names. -/
def others (s : Site) (name : String) : List (String × Claim) :=
  s.live.filter fun e => e.1 ≠ name

/-- What a step leaves of a site. -/
inductive Leaves (s : Site) : Step → Site → Prop where
  | claim {name : String} {roi : Rect} {c : Claim} {t u : Shared}
      (taken : Claim.take roi s.shared = .ok c t)
      (listed : s.shared.map.workList .trimap roi = .ok c.work)
      (reserved : Marked c.work.rects .reserved s.shared.map t.map)
      (freed : Marked (s.rectsOf name) .unrendered t.map u.map) :
      Leaves s (.claim name roi) ⟨u, (name, c) :: s.others name⟩
  | complete {name : String} {u : Shared}
      (done : Marked (s.rectsOf name) .available s.shared.map u.map) :
      Leaves s (.complete name) ⟨u, s.others name⟩
  | abort {name : String} {u : Shared}
      (freed : Marked (s.rectsOf name) .unrendered s.shared.map u.map) :
      Leaves s (.abort name) ⟨u, s.others name⟩
  | drop {name : String} {u : Shared}
      (freed : Marked (s.rectsOf name) .unrendered s.shared.map u.map) :
      Leaves s (.drop name) ⟨u, s.others name⟩
  /-- A rectangle that does not lie in the bounds is refused. -/
  | markAvailable {rect : Rect} {u : Shared}
      (done : Marked ([rect].filter (· ⊆ s.shared.map.bounds)) .available s.shared.map u.map) :
      Leaves s (.markAvailable rect) ⟨u, s.live⟩
  | clear {rect : Rect} {u : Shared}
      (freed : Marked ([rect].filter (· ⊆ s.shared.map.bounds)) .unrendered s.shared.map u.map) :
      Leaves s (.clear rect) ⟨u, s.live⟩
  | setRestriction {r : Option Rect} {u : Shared}
      (narrowed : u.map = { s.shared.map with restriction := r }) :
      Leaves s (.setRestriction r) ⟨u, s.live⟩

/-- Claims can be taken, and those that are live are not settled. -/
structure Ready (s : Site) : Prop where
  claimable : s.shared.map.Claimable
  unsettled : ∀ e ∈ s.live, e.2.settled = false

/-- Claims can be taken, and those that are live have names of their own and are not settled. -/
structure Working (s : Site) : Prop where
  claimable : s.shared.map.Claimable
  guarded : s.Guarded

theorem Working.ready (h : s.Working) : s.Ready := ⟨h.claimable, h.guarded.unsettled⟩

theorem rectsOf_of_none (h : s.claim? name = none) : s.rectsOf name = [] := by
  rw [rectsOf, h]

theorem rectsOf_of_some {c : Claim} (h : s.claim? name = some c) :
    s.rectsOf name = c.work.rects := by
  rw [rectsOf, h]

/-- What a name lists is what its live claim lists. -/
theorem mem_rectsOf {r : Rect} :
    r ∈ s.rectsOf name ↔ ∃ c, s.claim? name = some c ∧ r ∈ c.work.rects := by
  cases hc : s.claim? name with
  | none => simp [rectsOf_of_none hc]
  | some c => simp [rectsOf_of_some hc]

theorem exists_mem_rectsOf :
    (∃ r ∈ s.rectsOf name, p ∈ r) ↔ ∃ c, s.claim? name = some c ∧ c.Lists p := by
  refine ⟨fun h => ?_, fun h => ?_⟩
  · obtain ⟨r, hr, hp⟩ := h
    obtain ⟨c, hc, hr⟩ := mem_rectsOf.mp hr
    exact ⟨c, hc, r, hr, hp⟩
  · obtain ⟨c, hc, r, hr, hp⟩ := h
    exact ⟨r, mem_rectsOf.mpr ⟨c, hc, hr⟩, hp⟩

theorem mem_others {e : String × Claim} : e ∈ s.others name ↔ e ∈ s.live ∧ e.1 ≠ name := by
  rw [others, List.mem_filter, decide_eq_true_eq]

/-- Without a claim of that name, the others are all. -/
theorem others_of_none (h : s.claim? name = none) : s.others name = s.live := by
  rw [others, List.filter_eq_self]
  intro e he
  have hne := List.lookup_eq_none_iff.mp h e he
  rw [decide_eq_true_eq]
  intro heq
  rw [heq] at hne
  exact absurd hne (by simp)

theorem live_left_ending (name : String) (u : Claim → Update Shared Unit) (s : Site) :
    ∀ e ∈ ((ending name u).left s).live, e ∈ s.live := by
  intro e he
  rw [left_ending] at he
  cases hc : s.claim? name with
  | none => rwa [hc] at he
  | some c =>
    rw [hc] at he
    exact (mem_others.mp he).1

/-- A claim is not settled when it becomes live. -/
theorem live_after (s : Site) (x : Step) :
    ∀ e ∈ (s.after x).live, e ∈ s.live ∨ e.2.settled = false := by
  rw [after_eq_left]
  cases x with
  | claim name roi =>
    rw [left_claim]
    cases ht : Claim.take roi s.shared with
    | error f t => exact fun e he => Or.inl he
    | ok c t =>
      have hold : ∀ e ∈ s.others name, e ∈ s.live := fun e he => (mem_others.mp he).1
      exact List.forall_mem_cons.mpr
        ⟨Or.inr (Claim.take_eq_ok ht).1, fun e he => Or.inl (hold e he)⟩
  | complete name | abort name | drop name =>
    exact fun e he => Or.inl (live_left_ending name _ s e he)
  | markAvailable rect | clear rect =>
    rw [step, left_onShared]
    exact fun e he => Or.inl he
  | setRestriction r => exact fun e he => Or.inl he

/-- What ends a claim marks what it lists, and leaves the others. -/
theorem Ready.left_ending_eq {st : PixelState} {u : Claim → Update Shared Unit}
    (h : s.Ready) (name : String) (hu : ∀ c : Claim, c.settled = false →
      Marked c.work.rects st s.shared.map ((u c).left s.shared).map) :
    ∃ t : Shared, (ending name u).left s = ⟨t, s.others name⟩ ∧
      Marked (s.rectsOf name) st s.shared.map t.map := by
  rw [left_ending]
  cases hc : s.claim? name with
  | none =>
    refine ⟨s.shared, ?_, ?_⟩
    · rw [others_of_none hc]
    · rw [rectsOf_of_none hc]
      exact Marked.refl h.claimable.sound.1 st
  | some c =>
    refine ⟨(u c).left s.shared, rfl, ?_⟩
    rw [rectsOf_of_some hc]
    exact hu c (h.unsettled _ (mem_of_claim? hc))

/-- A new claim is live whatever becomes of the one that had its name. -/
theorem Ready.left_claim_eq {roi : Rect} {c : Claim} {t : Shared} (h : s.Ready)
    (name : String) (ht : Claim.take roi s.shared = .ok c t) (hs : t.map.grid.Sized) :
    ∃ u : Shared, (step (.claim name roi)).left s = ⟨u, (name, c) :: s.others name⟩ ∧
      Marked (s.rectsOf name) .unrendered t.map u.map := by
  rw [left_claim, ht]
  cases hc : s.claim? name with
  | none =>
    refine ⟨t, rfl, ?_⟩
    rw [rectsOf_of_none hc]
    exact Marked.refl hs _
  | some old =>
    refine ⟨old.drop.left t, rfl, ?_⟩
    rw [rectsOf_of_some hc]
    exact Claim.marked_of_drop (h.unsettled _ (mem_of_claim? hc)) hs

/-- **What each step leaves.** -/
theorem Ready.leaves (h : s.Ready) (hx : x.InRange) : s.Leaves x (s.after x) := by
  have hs := h.claimable.sound.1
  rw [after_eq_left]
  cases x with
  | claim name roi =>
    obtain ⟨c, t, ht, hw, hres⟩ := Claim.take_of_claimable h.claimable hx
    obtain ⟨u, hu, hfree⟩ := h.left_claim_eq name ht hres.sized
    rw [hu]
    exact .claim ht hw hres hfree
  | complete name =>
    obtain ⟨t, ht, hdone⟩ := h.left_ending_eq name fun c _ => Claim.marked_of_complete c hs
    rw [step, ht]
    exact .complete hdone
  | abort name =>
    obtain ⟨t, ht, hfree⟩ := h.left_ending_eq name fun c _ => Claim.marked_of_abort c hs
    rw [step, ht]
    exact .abort hfree
  | drop name =>
    obtain ⟨t, ht, hfree⟩ := h.left_ending_eq name fun _ hc => Claim.marked_of_drop hc hs
    rw [step, ht]
    exact .drop hfree
  | markAvailable rect =>
    rw [step, left_onShared]
    exact .markAvailable (Shared.marked_of_write rect hs (h.claimable.accepts _))
  | clear rect =>
    rw [step, left_onShared]
    exact .clear (Shared.marked_of_write rect hs (h.claimable.accepts _))
  | setRestriction r => exact .setRestriction rfl

theorem Working.leaves (h : s.Working) (hx : x.InRange) : s.Leaves x (s.after x) :=
  h.ready.leaves hx

theorem Leaves.claimable (h : s.Leaves x t) (hs : s.shared.map.Claimable) :
    t.shared.map.Claimable := by
  cases h with
  | claim _ _ reserved freed => exact (hs.of_marked reserved).of_marked freed
  | complete done | markAvailable done => exact hs.of_marked done
  | abort freed | drop freed | clear freed => exact hs.of_marked freed
  | setRestriction narrowed => exact narrowed ▸ ⟨hs.sound, hs.normal, hs.reservations⟩

theorem Leaves.bounds (h : s.Leaves x t) : t.shared.map.bounds = s.shared.map.bounds := by
  cases h with
  | claim _ _ reserved freed => exact freed.bounds.trans reserved.bounds
  | complete done | markAvailable done => exact done.bounds
  | abort freed | drop freed | clear freed => exact freed.bounds
  | setRestriction narrowed => exact narrowed ▸ rfl

/-- A step that works on the map through claims only. -/
def Step.ByClaim : Step → Prop
  | .claim .. | .complete _ | .abort _ | .drop _ => True
  | .markAvailable _ | .clear _ | .setRestriction _ => False

instance : DecidablePred Step.ByClaim
  | .claim .. | .complete _ | .abort _ | .drop _ => isTrue trivial
  | .markAvailable _ | .clear _ | .setRestriction _ => isFalse id

/-- Claims leave the restriction as it is. -/
theorem Leaves.restriction (h : s.Leaves x t) (hx : x.ByClaim) :
    t.shared.map.restriction = s.shared.map.restriction := by
  cases h with
  | claim _ _ reserved freed => exact freed.restriction.trans reserved.restriction
  | complete done => exact done.restriction
  | abort freed | drop freed => exact freed.restriction
  | markAvailable | clear | setRestriction => exact absurd hx id

theorem Ready.after (h : s.Ready) (hx : x.InRange) : (s.after x).Ready where
  claimable := (h.leaves hx).claimable h.claimable
  unsettled e he := (live_after s x e he).elim (h.unsettled e) id

theorem Working.after (h : s.Working) (hx : x.InRange) : (s.after x).Working :=
  ⟨(h.leaves hx).claimable h.claimable, h.guarded.after hx⟩

/-! ## Runs -/

theorem run_concat (s : Site) (steps : List Step) (x : Step) :
    s.run (steps ++ [x]) = (s.run steps).after x := List.foldl_concat ..

theorem Working.run (h : s.Working) (hs : ∀ x ∈ steps, x.InRange) : (s.run steps).Working := by
  induction steps generalizing s with
  | nil => exact h
  | cons x steps ih =>
    obtain ⟨hx, hs⟩ := List.forall_mem_cons.mp hs
    exact ih (h.after hx) hs

/--
**Induction over a run.** What holds at the start, and goes on to hold from each part of the
run to the part that is one step longer, holds of the whole run.
-/
theorem Working.run_induction {P : List Step → Prop} (h : s.Working)
    (hs : ∀ x ∈ steps, x.InRange) (start : P [])
    (next : ∀ before x, before ++ [x] <+: steps → (s.run before).Working →
      (s.run before).Leaves x (s.run (before ++ [x])) → P before → P (before ++ [x])) :
    P steps := by
  induction steps using List.reverseRecOn with
  | nil => exact start
  | append_singleton steps x ih =>
    have hbefore : ∀ y ∈ steps, y.InRange := fun y hy => hs y (List.mem_append_left _ hy)
    have hw := h.run hbefore
    refine next steps x (List.prefix_refl _) hw ?_ (ih hbefore fun before y hp => ?_)
    · rw [run_concat]
      exact hw.leaves (hs x List.mem_concat_self)
    · exact next before y (hp.trans (List.prefix_append _ _))

theorem Working.bounds_run (h : s.Working) (hs : ∀ x ∈ steps, x.InRange) :
    (s.run steps).shared.map.bounds = s.shared.map.bounds :=
  h.run_induction (P := fun before => (s.run before).shared.map.bounds = s.shared.map.bounds)
    hs rfl fun _ _ _ _ hl ih => hl.bounds.trans ih

theorem Working.mem_bounds_run (h : s.Working) (hs : ∀ x ∈ steps, x.InRange) :
    p ∈ (s.run steps).shared.map.bounds ↔ p ∈ s.shared.map.bounds := by rw [h.bounds_run hs]

theorem Working.restriction_run (h : s.Working) (hs : ∀ x ∈ steps, x.InRange)
    (hc : ∀ x ∈ steps, x.ByClaim) :
    (s.run steps).shared.map.restriction = s.shared.map.restriction := by
  refine h.run_induction
    (P := fun before => (s.run before).shared.map.restriction = s.shared.map.restriction)
    hs rfl fun before x hp _ hl ih => ?_
  have hx := hc x (hp.subset List.mem_concat_self)
  exact (hl.restriction hx).trans ih

/-! ## What has happened -/

/-- The claim that a step completes. -/
def completed (s : Site) : Step → Option Claim
  | .complete name => s.claim? name
  | .claim .. | .abort _ | .drop _ | .markAvailable _ | .clear _ | .setRestriction _ => none

/-- The claim that a step gives up: it is aborted or lost, or its name is taken again. -/
def givenUp (s : Site) : Step → Option Claim
  | .claim name _ | .abort name | .drop name => s.claim? name
  | .complete _ | .markAvailable _ | .clear _ | .setRestriction _ => none

/-- What the steps of a run tell one after the other. -/
def gathered (f : Site → Step → Option Claim) (s : Site) : List Step → List Claim
  | [] => []
  | x :: steps => (f s x).toList ++ gathered f (s.after x) steps

/-- The claims that a run completes, the first one first. -/
def completions (s : Site) (steps : List Step) : List Claim := gathered completed s steps

/-- The claims that are given up in a run. -/
def givenUps (s : Site) (steps : List Step) : List Claim := gathered givenUp s steps

/-- After the steps `before`, and at all times in the steps that follow, the claim is live. -/
def LiveSince (s : Site) (before after : List Step) (e : String × Claim) : Prop :=
  ∀ between, between <+: after → e ∈ (s.run (before ++ between)).live

instance : DecidablePred Step.InRange
  | .claim _ roi => inferInstanceAs (Decidable roi.InRange)
  | .markAvailable rect | .clear rect => inferInstanceAs (Decidable rect.InRange)
  | .setRestriction r => inferInstanceAs (Decidable (∀ rect ∈ r, rect.InRange))
  | .complete _ | .abort _ | .drop _ => isTrue trivial

theorem gathered_append (f : Site → Step → Option Claim) (s : Site) (before after : List Step) :
    gathered f s (before ++ after) = gathered f s before ++ gathered f (s.run before) after := by
  induction before generalizing s with
  | nil => rfl
  | cons x before ih =>
    rw [List.cons_append, gathered, ih, gathered, List.append_assoc]
    rfl

theorem completions_concat (s : Site) (steps : List Step) (x : Step) :
    s.completions (steps ++ [x]) = s.completions steps ++ ((s.run steps).completed x).toList := by
  rw [completions, gathered_append, gathered, gathered, List.append_nil]
  rfl

theorem liveSince_nil {before : List Step} {e : String × Claim} (h : e ∈ (s.run before).live) :
    s.LiveSince before [] e := by
  intro between hb
  rw [List.prefix_nil.mp hb, List.append_nil]
  exact h

theorem LiveSince.concat {before after : List Step} {e : String × Claim}
    (h : s.LiveSince before after e) (hx : e ∈ (s.run (before ++ after ++ [x])).live) :
    s.LiveSince before (after ++ [x]) e := by
  intro between hb
  rcases List.prefix_concat_iff.mp hb with heq | hb
  · rw [heq, ← List.append_assoc]
    exact hx
  · exact h between hb

/-! ## States of a shared map -/

section Keeps

variable {P : CoverageMap → Prop}

theorem keeps_onShared {α : Type} {u : Update Shared α} (hu : Keeps (fun s => P s.map) u) :
    Keeps (fun s => P s.shared.map) (onShared u) :=
  Keeps.onPart hu (fun _ h => h) fun _ _ _ h => h

theorem keeps_ending (name : String) {u : Claim → Update Shared Unit}
    (hu : ∀ c, Keeps (fun s => P s.map) (u c)) :
    Keeps (fun s => P s.shared.map) (ending name u) := by
  intro s h
  rw [left_ending]
  cases s.claim? name with
  | none => exact h
  | some c => exact hu c _ h

/-- What the map keeps in a write, and when it is restricted, it keeps in every step. -/
theorem keeps_step (hw : ∀ rect st, Keeps P (CoverageMap.write rect st))
    (hr : ∀ r, Keeps P (CoverageMap.setRestriction r)) (x : Step) :
    Keeps (fun s => P s.shared.map) (step x) := by
  have hsettle : ∀ (c : Claim) (rendered : Bool),
      Keeps (fun s => P s.map) (c.settle rendered >>= Claim.drop) := fun c rendered =>
    Keeps.bind (Claim.keeps_settle hw c rendered) fun c => Claim.keeps_drop hw c
  cases x with
  | claim name roi =>
    refine Keeps.bind (keeps_onShared (Claim.keeps_take hw roi)) fun c => ?_
    refine Keeps.get_bind fun s _ => Keeps.bind (Keeps.modify fun _ h => h) fun _ => ?_
    cases s.claim? name with
    | none => exact Keeps.pure _
    | some old => exact keeps_onShared (Claim.keeps_drop hw old)
  | complete name => exact keeps_ending name fun c => hsettle c true
  | abort name => exact keeps_ending name fun c => hsettle c false
  | drop name => exact keeps_ending name fun c => Claim.keeps_drop hw c
  | markAvailable rect | clear rect => exact keeps_onShared (Shared.keeps_onMap (hw rect _))
  | setRestriction r => exact keeps_onShared (Shared.keeps_onMap (hr r))

end Keeps

/-- The states of a map that is shared. Steps follow one another, whether or not they end in a
fault, and in between somebody may have the map in hand and leave any other in its place that is
sound, as maps are whatever commands they have been through. -/
inductive Reached : Site → Prop where
  | share {s : Site} : s.shared.map.Reachable → s.live = [] → Reached s
  | step {s : Site} {x : Step} : Reached s → x.InRange → Reached (s.after x)
  | edit {s : Site} {m : CoverageMap} : Reached s → m.Sound →
      Reached { s with shared := { s.shared with map := m } }

theorem Reached.sound (h : s.Reached) : s.shared.map.Sound := by
  induction h with
  | share hm _ => exact hm.sound
  | @step s x _ _ ih =>
    rw [after_eq_left]
    exact keeps_step CoverageMap.keeps_write_sound (fun _ => Keeps.modify fun _ h => h) x s ih
  | edit _ hm _ => exact hm

theorem Reached.unsettled (h : s.Reached) : ∀ e ∈ s.live, e.2.settled = false := by
  induction h with
  | share _ hl =>
    rw [hl]
    exact fun e he => absurd he List.not_mem_nil
  | @step s x _ _ ih => exact fun e he => (live_after s x e he).elim (ih e) id
  | edit _ _ ih => exact ih

/-- Where a map takes reservations, claims can be taken. -/
theorem Reached.ready (h : s.Reached) (hb : s.shared.map.bounds.Normal)
    (hr : s.shared.map.config.reservations = true) : s.Ready :=
  ⟨⟨h.sound, hb, hr⟩, h.unsettled⟩

/-! ## Where runs begin -/

/-- Nothing is rendered yet, and nobody is at work. -/
structure Blank (s : Site) : Prop where
  live : s.live = []
  sound : s.shared.map.grid.Sound
  reservations : s.shared.map.config.reservations = true
  unrendered : ∀ p ∈ s.shared.map.bounds, s.shared.map.grid.get? p = some .unrendered

/-- Workers may begin on every new map with reservations. -/
theorem blank_of_create {bounds : Rect} {config : Config} (hl : s.live = [])
    (h : create bounds config = .ok s.shared.map) (hb : bounds.InRange)
    (hr : config.reservations = true) : s.Blank := by
  have hm := eq_blank_of_create h
  refine ⟨hl, ?_, ?_, fun p hp => ?_⟩
  · rw [hm]
    exact sound_blank hb config
  · rw [hm]
    exact hr
  · rw [hm] at hp ⊢
    exact (get?_blank bounds config p).trans (if_pos hp)

theorem Blank.working (h : s.Blank) (hb : s.shared.map.bounds.Normal) : s.Working := by
  refine ⟨⟨h.sound, hb, h.reservations⟩, guarded_of_empty h.live h.sound.2 fun p hp => ?_⟩
  rw [h.unrendered p (Grid.mem_bounds_of_get? hp)] at hp
  exact absurd hp (by simp)

theorem fresh_blank : fresh.Blank := by
  have hnew : create ⟨0, 0, 4, 4⟩ {} = .ok fresh.shared.map := rfl
  exact blank_of_create rfl hnew (by decide) rfl

theorem fresh_reached : fresh.Reached := by
  have hnew : create ⟨0, 0, 4, 4⟩ {} = .ok fresh.shared.map := rfl
  exact .share (reachable_of_create (by decide) hnew) rfl

end PixelCoverage.Site
