import PixelCoverage.Proofs.Locality

/-!
# A copied region keeps its answers

A map that has received a region from another answers about it as the other does. The two need
have nothing in common but the region: other bounds, another origin, other pixels all around.

They need not even agree on the states. A map without reservations receives a reserved pixel as
an unrendered one, and in simple mode that makes no difference, since whoever does not know of
reservations has to render both. In trimap mode it would, so there either the map must take
reservations or there must be none to receive.
-/

namespace PixelCoverage

open Update

/-- In simple mode a state means the same after it has been received. -/
theorem Criterion.judge_received (c : Criterion) (config : Config) (s : PixelState) :
    c.judge .simple (config.received s) = c.judge .simple s := by
  unfold Config.received
  split
  · rfl
  · rename_i hno
    have hres : s = .reserved := by
      cases s with
      | reserved => rfl
      | unrendered => exact absurd nofun hno
      | available => exact absurd nofun hno
    rw [hres]
    cases c <;> rfl

theorem Config.received_of_accepts {config : Config} {s : PixelState} (h : config.Accepts s) :
    config.received s = s := if_pos h

namespace Grid

/-- The grid shows in a rectangle what a map with these options receives from another. -/
def ReceivedFrom (g source : Grid) (config : Config) (rect : Rect) : Prop :=
  ∀ p ∈ rect, g.get? p = (source.get? p).map config.received

variable {g source : Grid} {config : Config} {rect : Rect} {p : Pixel}

/-- Simple mode cannot tell what has been received from what it was. -/
theorem ReceivedFrom.map_judge (h : g.ReceivedFrom source config rect) (hp : p ∈ rect)
    (c : Criterion) :
    (source.get? p).map (c.judge .simple) = (g.get? p).map (c.judge .simple) := by
  rw [h p hp]
  cases source.get? p with
  | none => rfl
  | some s => exact congrArg some (c.judge_received config s).symm

/-- Where nothing is translated, the states are those of the source. -/
theorem ReceivedFrom.get?_eq (h : g.ReceivedFrom source config rect)
    (ha : config.reservations = true ∨ ∀ p ∈ rect, source.get? p ≠ some .reserved)
    (hp : p ∈ rect) : source.get? p = g.get? p := by
  rw [h p hp]
  cases hs : source.get? p with
  | none => rfl
  | some s =>
    have hacc : config.Accepts s := by
      intro hres
      rcases ha with hon | hno
      · exact hon
      · exact absurd (hres ▸ hs) (hno p hp)
    exact congrArg some (Config.received_of_accepts hacc).symm

end Grid

namespace CoverageMap

variable {src dst : CoverageMap} {rect : Rect}

/-- **A copied region keeps its answers,** those of simple mode in any case, and the others if
no state has to be translated. -/
theorem sameAnswers_of_copyRegion (hs : src.Reachable) (hd : dst.Reachable)
    (hrs : src.restriction = none) (hrd : dst.restriction = none)
    (hb : src.config.decomposeBorders = dst.config.decomposeBorders)
    (hsub : rect ⊆ src.bounds) (hsub' : rect ⊆ dst.bounds) :
    ∃ new, copyRegion rect src dst = .ok () new ∧
      ∀ roi, ¬ roi.IsEmpty → roi ⊆ rect →
        src.SameAnswers new .simple roi ∧
        (dst.config.reservations = true ∨ (∀ p ∈ rect, src.grid.get? p ≠ some .reserved) →
          src.SameAnswers new .trimap roi ∧ src.census roi = new.census roi) := by
  obtain ⟨g, hcopy, hbounds, hg, hget⟩ := copyRegion_of_subset hd.sound.1 hs.sound.1 hsub' hsub
  have hrec : g.ReceivedFrom src.grid dst.config rect := by
    intro p hp
    rw [hget, if_pos hp]
  refine ⟨_, hcopy, fun roi he hroi => ?_⟩
  have hmem : ∀ p ∈ roi, p ∈ rect := fun p hp => Rect.mem_of_subset hroi hp
  have hin : roi.Within src.grid.bounds := Rect.within_of_subset (Rect.subset_trans hroi hsub) he
  have hin' : roi.Within g.bounds :=
    hbounds ▸ Rect.within_of_subset (Rect.subset_trans hroi hsub') he
  -- only the pixels of the region are left to be compared
  have hsame : ∀ mode, (∀ p ∈ roi, ∀ c : Criterion,
      (src.grid.get? p).map (c.judge mode) = (g.get? p).map (c.judge mode)) →
      src.SameAnswers { dst with grid := g } mode roi := fun mode hjudge =>
    sameAnswers_of_alike ⟨hs.sound.1, hg, hs.sound.2, hin, hin', hjudge⟩ he hrs hrd hb
  refine ⟨hsame .simple fun p hp => hrec.map_judge (hmem p hp), fun ha => ⟨?_, ?_⟩⟩
  · exact hsame .trimap fun p hp c => congrArg _ (hrec.get?_eq ha (hmem p hp))
  · exact census_eq_of_get? hs.sound.1 hg he hin.subset hin'.subset fun p hp =>
      hrec.get?_eq ha (hmem p hp)

/-- The pixels in the middle of a map go into two others of another shape. In the one without
reservations, the reserved pixel among them arrives as an unrendered one. -/
theorem sameAnswers_of_copyRegion_mixed :
    ∃ m n new new', create ⟨-3, 0, 3, 3⟩ .single = .ok m ∧ create ⟨-3, 0, 3, 3⟩ = .ok n ∧
      copyRegion ⟨1, 1, 3, 3⟩ mixed m = .ok () new ∧
      copyRegion ⟨1, 1, 3, 3⟩ mixed n = .ok () new' ∧
      mixed.read ⟨2, 1⟩ = .ok (some .reserved) ∧ new.read ⟨2, 1⟩ = .ok (some .unrendered) ∧
      mixed.SameAnswers new .simple ⟨1, 1, 3, 3⟩ ∧
      mixed.SameAnswers new' .trimap ⟨1, 1, 3, 3⟩ ∧
      mixed.census ⟨1, 1, 3, 3⟩ = new'.census ⟨1, 1, 3, 3⟩ := by
  have hm : create ⟨-3, 0, 3, 3⟩ .single = .ok (blank ⟨-3, 0, 3, 3⟩ .single) :=
    create_of_le (by decide)
  have hn : create ⟨-3, 0, 3, 3⟩ = .ok (blank ⟨-3, 0, 3, 3⟩ {}) := create_of_le (by decide)
  have hroi : ¬ (⟨1, 1, 3, 3⟩ : Rect).IsEmpty := by decide
  have hself : (⟨1, 1, 3, 3⟩ : Rect) ⊆ ⟨1, 1, 3, 3⟩ := by decide
  have hsub : (⟨1, 1, 3, 3⟩ : Rect) ⊆ mixed.bounds := by decide
  obtain ⟨new, hcopy, hsame⟩ := sameAnswers_of_copyRegion mixed_reachable
    (reachable_of_create (by decide) hm) rfl rfl rfl hsub (by decide)
  obtain ⟨new', hcopy', hsame'⟩ := sameAnswers_of_copyRegion mixed_reachable
    (reachable_of_create (by decide) hn) rfl rfl rfl hsub (by decide)
  obtain ⟨htrimap, hcensus⟩ := (hsame' _ hroi hself).2 (Or.inl rfl)
  refine ⟨_, _, new, new', hm, hn, hcopy, hcopy', rfl, ?_, (hsame _ hroi hself).1, htrimap,
    hcensus⟩
  cases hcopy
  rfl

end CoverageMap

end PixelCoverage
