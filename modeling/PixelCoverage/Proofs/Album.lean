import PixelCoverage.Proofs.History
import PixelCoverage.Proofs.Picture

/-!
# Histories of maps and of pictures

An `Album` is an atlas without cells: a picture under each name that is in use. Each command
has a meaning for albums, which says outright what becomes of which pixels. Carried out one
after the other, commands do the same to the maps of an atlas as their meanings do to the
pictures of an album, as long as no command ends in a fault.

One lemma about each command is enough. `Update.Follows` is closed under doing things one after
the other, so histories come for free.
-/

namespace PixelCoverage

open Update

/-- Pictures by name. -/
abbrev Album (κ : Type) := κ → Option Picture

namespace Album

variable {κ : Type} [DecidableEq κ]

/-- The album without pictures. -/
def empty : Album κ := fun _ => none

/-- Puts a picture under a name, in place of the one that had it. -/
def put (A : Album κ) (name : κ) (P : Picture) : Album κ := fun k =>
  if k = name then some P else A k

/-- Changes the picture of a name, if there is one. -/
def edit (A : Album κ) (name : κ) (f : Picture → Picture) : Album κ := fun k =>
  if k = name then (A k).map f else A k

/-- Changes the picture of a name with the help of another. The other stays as it is. -/
def combine (A : Album κ) (name source : κ) (f : Picture → Picture → Picture) : Album κ :=
  match A source with
  | none => A
  | some Q => A.edit name fun P => f P Q

/-- The meaning of a command. -/
def step : Atlas.Command κ → Album κ → Album κ
  | .create name bounds config, A =>
    A.put name (.blank bounds config.reservations config.decomposeBorders)
  | .clone name source, A =>
    match A source with
    | none => A
    | some P => A.put name P
  | .reset name bounds, A => A.edit name (·.reset bounds)
  | .setDecomposeBorders name on, A => A.edit name (·.setDecomposeBorders on)
  | .setRestriction name r, A => A.edit name (·.setRestriction r)
  | .write name rect s, A => A.edit name (·.write rect s)
  | .tryWrite name rect s, A => A.edit name (·.tryWrite rect s)
  -- the whole map is the rectangle of its bounds
  | .writeAll name s, A => A.edit name fun P => P.write P.bounds s
  | .copyRegion name rect source, A => A.combine name source (·.copy · rect)
  | .tryCopyRegion name rect source, A => A.combine name source (·.tryCopy · rect)
  | .copyRow name x0 x1 y source, A =>
    A.combine name source (·.copy · (.ofEdges x0 y x1 (y + 1)))
  | .swap name other, A =>
    match A name, A other with
    | some P, some Q => (A.put name (P.exchanged Q)).put other (Q.exchanged P)
    | _, _ => A

/-- The meaning of a history. -/
def replay (history : List (Atlas.Command κ)) (A : Album κ) : Album κ :=
  history.foldl (fun A c => step c A) A

end Album

namespace Atlas

variable {κ : Type} [DecidableEq κ] {a b : Atlas κ} {A : Album κ}

/-- Carries out a history, up to the first fault. -/
def replay (history : List (Command κ)) : Update (Atlas κ) PUnit :=
  history.forM fun c => do
    let _ ← run c
    return ⟨⟩

/-- Each map of the atlas shows the picture of its name. -/
def Shows (a : Atlas κ) (A : Album κ) : Prop :=
  ∀ name, Option.Rel CoverageMap.Shows (a.get? name) (A name)

namespace Shows

variable {name source : κ} {m n : CoverageMap} {P Q : Picture}

/-- Where there is no map there is no picture. -/
theorem of_none (h : a.Shows A) (hm : a.get? name = none) : A name = none := by
  have hrel := h name
  rw [hm] at hrel
  cases hp : A name with
  | none => rfl
  | some P =>
    rw [hp] at hrel
    cases hrel

/-- Where there is a map there is a picture of it. -/
theorem of_some (h : a.Shows A) (hm : a.get? name = some m) : ∃ P, A name = some P ∧ m.Shows P := by
  have hrel := h name
  rw [hm] at hrel
  cases hp : A name with
  | none =>
    rw [hp] at hrel
    cases hrel
  | some P =>
    rw [hp] at hrel
    cases hrel with
    | some hs => exact ⟨P, rfl, hs⟩

theorem insert (h : a.Shows A) (name : κ) (hm : m.Shows P) :
    (a.insert name m).Shows (A.put name P) := by
  intro k
  unfold Album.put
  by_cases hk : k = name
  · rw [hk, get?_insert_self, if_pos rfl]
    exact .some hm
  · rw [get?_insert_of_ne a m hk, if_neg hk]
    exact h k

end Shows

/-! ## Each command follows its meaning -/

section Parts

variable {α : Type} {name source : κ}

theorem follows_onMap {f : Picture → Picture} {u : Update CoverageMap α}
    (hu : Follows CoverageMap.Shows f u) : Follows Shows (·.edit name f) (onMap name u) := by
  intro a A h x b hb
  unfold onMap at hb
  cases hm : a.get? name with
  | none =>
    have hedit : A.edit name f = A := by
      funext k
      unfold Album.edit
      by_cases hk : k = name
      · rw [if_pos hk, hk, h.of_none hm]
        rfl
      · rw [if_neg hk]
    simp only [hm] at hb
    cases hb
    simp only [hedit]
    exact h
  | some m =>
    obtain ⟨P, hp, hs⟩ := h.of_some hm
    cases hum : u m with
    | error f n =>
      simp only [hm, hum] at hb
      cases hb
    | ok y n =>
      simp only [hm, hum] at hb
      cases hb
      have hput : A.edit name f = A.put name (f P) := by
        funext k
        unfold Album.edit Album.put
        by_cases hk : k = name
        · rw [if_pos hk, if_pos hk, hk, hp]
          rfl
        · rw [if_neg hk, if_neg hk]
      simp only [hput]
      exact h.insert name (hu m P hs y n hum)

theorem follows_onPair {f : Picture → Picture → Picture} {u : CoverageMap → Update CoverageMap α}
    (hu : ∀ q Q, q.Shows Q → Follows CoverageMap.Shows (f · Q) (u q)) :
    Follows Shows (·.combine name source f) (onPair name source u) := by
  intro a A h x b hb
  unfold onPair at hb
  simp only [get_bind_apply] at hb
  unfold Album.combine
  cases hq : a.get? source with
  | none =>
    simp only [hq] at hb
    cases hb
    simp only [h.of_none hq]
    exact h
  | some q =>
    obtain ⟨Q, hQ, hs⟩ := h.of_some hq
    simp only [hq] at hb
    simp only [hQ]
    exact follows_onMap (hu q Q hs) a A h x b hb

theorem follows_plain {f : Album κ → Album κ} {u : Update (Atlas κ) (Option Unit)}
    (hu : Follows Shows f u) : Follows Shows f (run.plain u) :=
  hu.answer fun _ => Follows.pure _

end Parts

/-- **A command does to maps what it means for pictures.** -/
theorem follows_run (c : Command κ) : Follows Shows (Album.step c) (run c) := by
  cases c with
  | create name bounds config =>
    intro a A h x b hb
    rw [run_create] at hb
    by_cases hle : bounds.area ≤ maxCells
    · simp only [CoverageMap.create_of_le hle] at hb
      cases hb
      exact h.insert name (CoverageMap.shows_blank bounds config)
    · simp only [CoverageMap.create_of_lt (Nat.lt_of_not_le hle)] at hb
      cases hb
  | clone name source =>
    intro a A h x b hb
    rw [run_clone] at hb
    cases hb
    unfold Album.step
    cases hm : a.get? source with
    | none =>
      simp only [h.of_none hm]
      exact h
    | some m =>
      obtain ⟨P, hp, hs⟩ := h.of_some hm
      simp only [hp]
      exact h.insert name hs
  | reset name bounds => exact follows_plain (follows_onMap (CoverageMap.follows_reset bounds))
  | setDecomposeBorders name on =>
    exact follows_plain (follows_onMap (CoverageMap.follows_setDecomposeBorders on))
  | setRestriction name r =>
    exact follows_plain (follows_onMap (CoverageMap.follows_setRestriction r))
  | write name rect s => exact follows_plain (follows_onMap (CoverageMap.follows_write rect s))
  | tryWrite name rect s =>
    exact (follows_onMap (CoverageMap.follows_tryWrite rect s)).map _
  | writeAll name s => exact follows_plain (follows_onMap (CoverageMap.follows_writeAll s))
  | copyRegion name rect source =>
    exact follows_plain (follows_onPair fun _ _ hq => CoverageMap.follows_copyRegion rect hq)
  | tryCopyRegion name rect source =>
    exact (follows_onPair fun _ _ hq => CoverageMap.follows_tryCopyRegion rect hq).map _
  | copyRow name x0 x1 y source =>
    exact follows_plain (follows_onPair fun _ _ hq => CoverageMap.follows_copyRow x0 x1 y hq)
  | swap name other =>
    intro a A h x b hb
    rw [run_swap] at hb
    cases hb
    unfold Album.step
    cases hm : a.get? name with
    | none =>
      simp only [h.of_none hm]
      exact h
    | some m =>
      obtain ⟨P, hp, hs⟩ := h.of_some hm
      cases hn : a.get? other with
      | none =>
        simp only [hp, h.of_none hn]
        exact h
      | some n =>
        obtain ⟨Q, hq, hs'⟩ := h.of_some hn
        obtain ⟨hfst, hsnd⟩ := hs.swap hs'
        simp only [hp, hq]
        exact (h.insert name hfst).insert other hsnd

/-! ## Histories -/

theorem follows_replay (history : List (Command κ)) :
    Follows Shows (Album.replay history) (replay history) :=
  Follows.forM history fun c => (follows_run c).answer fun _ => Follows.pure _

theorem shows_empty : Shows ({} : Atlas κ) Album.empty := fun _ => .none

/-- **Maps are their pixel functions.** After a history without a fault each map reads as the
picture that the history means. -/
theorem shows_of_replay {history : List (Command κ)} (h : replay history {} = .ok ⟨⟩ a)
    (name : κ) :
    Option.Rel CoverageMap.Shows (a.get? name) (Album.replay history Album.empty name) :=
  follows_replay history {} Album.empty shows_empty ⟨⟩ a h name

/-- Part of a map goes into another that takes no reservations, and the two are swapped. -/
def patchAndSwap : List (Command Bool) :=
  [.create true ⟨-2, -1, 1, 1⟩ {}, .write true ⟨-1, -1, 1, 0⟩ .reserved,
    .write true ⟨-2, 0, 0, 1⟩ .available, .create false ⟨-1, -3, 2, 2⟩ .single,
    .writeAll false .available, .copyRegion false ⟨-1, -1, 1, 1⟩ true, .swap true false]

theorem shows_of_replay_patchAndSwap :
    ∃ a m, replay patchAndSwap {} = .ok ⟨⟩ a ∧ a.get? true = some m ∧
      m.bounds = ⟨-1, -3, 2, 2⟩ ∧ m.read ⟨-1, -1⟩ = .ok (some .unrendered) ∧
      ∀ name, Option.Rel CoverageMap.Shows (a.get? name)
        (Album.replay patchAndSwap Album.empty name) := by
  have h : ∃ a, replay patchAndSwap {} = .ok ⟨⟩ a := ⟨_, rfl⟩
  obtain ⟨a, h⟩ := h
  have hm : ∃ m, a.get? true = some m := by
    cases h
    exact ⟨_, rfl⟩
  obtain ⟨m, hm⟩ := hm
  refine ⟨a, m, h, hm, ?_, ?_, fun name => shows_of_replay h name⟩
  · cases h
    cases hm
    rfl
  · cases h
    cases hm
    rfl

end Atlas

end PixelCoverage
