import PixelCoverage.Proofs.Steps

/-!
# What giving up a claim takes from others

A claim reserves its rectangles whole, and frees them whole when it is given up. Where two
live claims overlap, whoever gives up frees the pixels of the other as well: nothing on the
map tells whose a reserved pixel is. So a live claim may find a pixel of its own unrendered,
but only for this reason, and only where the two overlap.

`GivenUpSince` names the reason. That there is always one if a pixel of a live claim is
unrendered holds of every run in which nobody clears pixels past the claims.
-/

namespace PixelCoverage.Site

open CoverageMap

variable {s t : Site} {x : Step} {steps : List Step} {name : String} {e : String × Claim}
  {p : Pixel} {b : Claim}

/-- While `e` was live, another claim that lists the pixel was given up. -/
def GivenUpSince (s : Site) (steps : List Step) (e : String × Claim) (p : Pixel) : Prop :=
  ∃ before x after b, steps = before ++ x :: after ∧ (s.run before).givenUp x = some b ∧
    b.Lists p ∧ s.LiveSince (before ++ [x]) after e

theorem GivenUpSince.concat (h : s.GivenUpSince steps e p)
    (he : e ∈ (s.run (steps ++ [x])).live) : s.GivenUpSince (steps ++ [x]) e p := by
  obtain ⟨before, y, after, b, rfl, hb, hl, hlive⟩ := h
  refine ⟨before, y, after ++ [x], b, by simp, hb, hl, hlive.concat ?_⟩
  simpa using he

/-- An unrendered pixel has been given up just now, or it was unrendered before, and then no
new claim lists it. -/
theorem Leaves.unrendered (h : s.Leaves x t) (hx : ∀ rect, x ≠ .clear rect)
    (hp : t.shared.map.grid.get? p = some .unrendered) :
    (∃ b, s.givenUp x = some b ∧ b.Lists p) ∨
      s.shared.map.grid.get? p = some .unrendered ∧ ∀ e ∈ t.live, e.2.Lists p → e ∈ s.live := by
  have hold : ∀ {name}, ∀ e ∈ s.others name, e.2.Lists p → e ∈ s.live :=
    fun e he _ => (mem_others.mp he).1
  cases h with
  | @claim name roi c _ _ taken _ reserved freed =>
    by_cases hl : ∃ r ∈ s.rectsOf name, p ∈ r
    · exact Or.inl (exists_mem_rectsOf.mp hl)
    · rw [freed.of_not_mem hl] at hp
      obtain ⟨hs, hnew⟩ := reserved.kept hp (by decide)
      exact Or.inr ⟨hs, List.forall_mem_cons.mpr ⟨fun hc => absurd hc hnew, hold⟩⟩
  | complete done => exact Or.inr ⟨(done.kept hp (by decide)).1, hold⟩
  | @abort name _ freed | @drop name _ freed =>
    by_cases hl : ∃ r ∈ s.rectsOf name, p ∈ r
    · exact Or.inl (exists_mem_rectsOf.mp hl)
    · rw [freed.of_not_mem hl] at hp
      exact Or.inr ⟨hp, hold⟩
  | markAvailable done => exact Or.inr ⟨(done.kept hp (by decide)).1, fun e he _ => he⟩
  | @clear rect => exact absurd rfl (hx rect)
  | setRestriction narrowed =>
    rw [narrowed] at hp
    exact Or.inr ⟨hp, fun e he _ => he⟩

/-- **A live claim loses a pixel only to a claim that lists it too.** -/
theorem Blank.givenUpSince (hs : s.Blank) (hb : s.shared.map.bounds.Normal)
    (hr : ∀ x ∈ steps, x.InRange) (hc : ∀ x ∈ steps, ∀ rect, x ≠ .clear rect) :
    ∀ e ∈ (s.run steps).live, ∀ p, e.2.Lists p →
      (s.run steps).shared.map.grid.get? p = some .unrendered → s.GivenUpSince steps e p := by
  refine (hs.working hb).run_induction (P := fun before => ∀ e ∈ (s.run before).live, ∀ p,
    e.2.Lists p → (s.run before).shared.map.grid.get? p = some .unrendered →
      s.GivenUpSince before e p) hr ?_ fun before x hp _ hl ih e he p hlist hun => ?_
  · intro e he
    rw [run, List.foldl_nil, hs.live] at he
    exact absurd he List.not_mem_nil
  · have hx := hc x (hp.subset List.mem_concat_self)
    rcases hl.unrendered hx hun with ⟨b, hgive, hb⟩ | ⟨hold, hlive⟩
    · exact ⟨before, x, [], b, rfl, hgive, hb, liveSince_nil he⟩
    · exact (ih e (hlive e he hlist) p hlist hold).concat he

/-- What giving up a claim frees is all that it lists. -/
theorem Leaves.freed (h : s.Leaves x t) (hx : x = .abort name ∨ x = .drop name) :
    Marked (s.rectsOf name) .unrendered s.shared.map t.shared.map := by
  rcases hx with rfl | rfl
  · cases h with | abort freed => exact freed
  · cases h with | drop freed => exact freed

/-- **A claim that is given up takes from others what they share with it, and nothing else.**
As long as a claim is live, a pixel of it in the bounds is unrendered only if another claim that
lists the pixel has been given up in the meantime; and what is given up becomes unrendered
whoever else lists it, while all other pixels stay as they are. -/
theorem lost_only_to_overlap (hs : s.Blank) (hsteps : ∀ x ∈ steps, x.ByClaim ∧ x.InRange) :
    (∀ e ∈ (s.run steps).live, ∀ p ∈ s.shared.map.bounds, e.2.Lists p →
      (s.run steps).shared.map.grid.get? p = some .unrendered → s.GivenUpSince steps e p) ∧
    ∀ name b, (s.run steps).claim? name = some b → ∀ x, x = .abort name ∨ x = .drop name →
      ∀ p ∈ s.shared.map.bounds,
        (b.Lists p → (s.run (steps ++ [x])).shared.map.grid.get? p = some .unrendered) ∧
        (¬ b.Lists p → (s.run (steps ++ [x])).shared.map.grid.get? p =
          (s.run steps).shared.map.grid.get? p) := by
  have hr : ∀ x ∈ steps, x.InRange := fun x hx => (hsteps x hx).2
  have hn : ∀ {p}, p ∈ s.shared.map.bounds → s.shared.map.bounds.Normal := fun hp =>
    Rect.normal_of_not_isEmpty (Rect.not_isEmpty_iff_exists_mem.mpr ⟨_, hp⟩)
  refine ⟨fun e he p hp => ?_, fun name b hb x hx p hp => ?_⟩
  · refine hs.givenUpSince (hn hp) hr (fun x hx rect heq => ?_) e he p
    exact (heq ▸ hsteps x hx).1
  · have hw := (hs.working (hn hp)).run hr
    have hin := ((hs.working (hn hp)).mem_bounds_run hr).mpr hp
    have hl : (s.run steps).Leaves x ((s.run steps).after x) :=
      hw.leaves (by rcases hx with rfl | rfl <;> trivial)
    have hm := hl.freed hx
    rw [rectsOf_of_some hb] at hm
    rw [run_concat]
    exact ⟨hm.of_mem hin, hm.of_not_mem⟩

/-- Two claims on a diagonal, and one around both that reserves their pixels once more. -/
def diagonal : List Step :=
  [.claim "a" ⟨0, 0, 1, 1⟩, .claim "c" ⟨1, 1, 2, 2⟩, .claim "b" ⟨0, 0, 2, 2⟩]

/-- When the last of them is aborted, the first one loses its pixel. -/
theorem exists_lost_diagonal :
    ∃ c, (fresh.run (diagonal ++ [.abort "b"])).claim? "a" = some c ∧ c.Lists ⟨0, 0⟩ ∧
      (fresh.run (diagonal ++ [.abort "b"])).shared.map.grid.get? ⟨0, 0⟩ = some .unrendered :=
  ⟨⟨⟨[⟨0, 0, 1, 1⟩], false⟩, false⟩, by cbv, by decide, by cbv⟩

theorem lost_only_to_overlap_diagonal :
    fresh.Blank ∧ (∀ x ∈ diagonal ++ [.abort "b"], x.ByClaim ∧ x.InRange) ∧
      (∃ c, (fresh.run (diagonal ++ [.abort "b"])).claim? "a" = some c ∧
        fresh.GivenUpSince (diagonal ++ [.abort "b"]) ("a", c) ⟨0, 0⟩) ∧
      (fresh.run (diagonal ++ [.abort "b"])).shared.map.grid.get? ⟨2, 2⟩ =
        (fresh.run diagonal).shared.map.grid.get? ⟨2, 2⟩ := by
  have hsteps : ∀ x ∈ diagonal ++ [.abort "b"], x.ByClaim ∧ x.InRange := by decide
  have hbefore : ∀ x ∈ diagonal, x.ByClaim ∧ x.InRange := by decide
  have hb : (fresh.run diagonal).claim? "b" = some ⟨⟨[⟨0, 0, 2, 2⟩], true⟩, false⟩ := by cbv
  have hout : ¬ Claim.Lists ⟨⟨[⟨0, 0, 2, 2⟩], true⟩, false⟩ ⟨2, 2⟩ := by decide
  obtain ⟨c, hc, hlist, hun⟩ := exists_lost_diagonal
  obtain ⟨hlost, _⟩ := lost_only_to_overlap fresh_blank hsteps
  obtain ⟨_, hkept⟩ := lost_only_to_overlap fresh_blank hbefore
  exact ⟨fresh_blank, hsteps,
    ⟨c, hc, hlost _ (mem_of_claim? hc) ⟨0, 0⟩ (by decide) hlist hun⟩,
    (hkept "b" _ hb (.abort "b") (Or.inl rfl) ⟨2, 2⟩ (by decide)).2 hout⟩

/-- The pixels of a live claim may well be unrendered: here another claim has released them. -/
theorem live_claim_released :
    fresh.Blank ∧ (∀ x ∈ diagonal ++ [.abort "b"], x.ByClaim ∧ x.InRange) ∧
      (fresh.run diagonal).shared.map.grid.get? ⟨0, 0⟩ = some .reserved ∧
      ¬ ∀ e ∈ (fresh.run (diagonal ++ [.abort "b"])).live, ∀ p ∈ fresh.shared.map.bounds,
        e.2.Lists p →
          (fresh.run (diagonal ++ [.abort "b"])).shared.map.grid.get? p ≠ some .unrendered := by
  refine ⟨fresh_blank, by decide, by cbv, fun h => ?_⟩
  obtain ⟨c, hc, hlist, hun⟩ := exists_lost_diagonal
  exact h _ (mem_of_claim? hc) ⟨0, 0⟩ (by decide) hlist hun

end PixelCoverage.Site
