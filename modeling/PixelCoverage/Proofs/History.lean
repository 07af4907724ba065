import PixelCoverage.CoverageMap.Atlas
import PixelCoverage.Proofs.Edits

/-!
# Maps that have a history

A map is *reachable* when some history of commands without a fault has produced it. What
every such map has in common is little: one cell for each pixel of its bounds, and bounds
whose edges are coordinates. This is all that queries rely on.

The cells are only ever written a row at a time, and a written row keeps their number. A
reset is the one command that lets go of the cells, and it has new ones when it succeeds.

What a command keeps is shown for any property of a grid and the options of its map. The
property need only be kept by the fills and copies of a grid, and hold of new cells.
-/

namespace PixelCoverage

open Update

/-! ## What every map has -/

/-- One cell for each pixel, and bounds that 32 bits can hold. -/
def Grid.Sound (g : Grid) : Prop := g.Sized ∧ g.bounds.InRange

namespace Grid

variable {r : Rect}

/-- To keep a property, a row need only keep it when it is written. -/
theorem keeps_putRow_of {P : Grid → Prop} {y x0 : Int} {states : List PixelState}
    (h : ∀ g, P g → P { g with cells := overwrite g.cells (g.offset x0 y) states }) :
    Keeps P (putRow y x0 states) := by
  intro g hg
  by_cases hrow : g.HasRow y x0 (x0 + states.length)
  · rw [left_of_ok (putRow_of_hasRow hrow)]
    exact h g hg
  · have hf : putRow y x0 states g = .error (.rowOutside y x0 (x0 + states.length) g.bounds) g :=
      if_neg hrow
    rw [left_of_error hf]
    exact hg

theorem keeps_putRow (y x0 : Int) (states : List PixelState) :
    Keeps Sound (putRow y x0 states) :=
  keeps_putRow_of fun _ hg => ⟨by rw [Sized, size_overwrite]; exact hg.1, hg.2⟩

theorem keeps_fill (s : PixelState) : Keeps Sound (fill r s) :=
  Keeps.forM _ fun _ _ => keeps_putRow _ _ _

theorem keeps_copy (source : Grid) (receive : PixelState → PixelState) :
    Keeps Sound (copy r source receive) :=
  Keeps.forM _ fun _ _ => Keeps.bind (Keeps.query _) fun _ => keeps_putRow _ _ _

theorem sound_filled {g : Grid} (hg : g.Sound) (s : PixelState) : (g.filled s).Sound :=
  ⟨by rw [Sized, filled, Array.size_replicate]; exact hg.1, hg.2⟩

end Grid

namespace CoverageMap

/-- The grid of the map is sound. -/
def Sound (m : CoverageMap) : Prop := m.grid.Sound

theorem sound_blank {bounds : Rect} (hb : bounds.InRange) (config : Config) :
    (blank bounds config).grid.Sound := ⟨sized_blank bounds config, hb⟩

section Fits

variable {Q : Config → Grid → Prop} {α : Type}

/-- The grid has a property that may depend on the options of the map. -/
def Fits (Q : Config → Grid → Prop) (m : CoverageMap) : Prop := Q m.config m.grid

/-- What changes nothing but the grid may take the options as given. -/
theorem keeps_fits {u : Update CoverageMap α}
    (hu : ∀ c, Keeps (fun m => m.config = c ∧ Q c m.grid) u) : Keeps (Fits Q) u := by
  intro m hm
  obtain ⟨hc, hg⟩ := hu m.config m ⟨rfl, hm⟩
  unfold Fits
  rw [hc]
  exact hg

theorem keeps_onGrid {c : Config} {u : Update Grid α} (hu : Keeps (Q c) u) :
    Keeps (fun m => m.config = c ∧ Q c m.grid) (onGrid u) :=
  Keeps.bind (Keeps.query _) fun _ =>
    Keeps.onPart hu (fun _ h => h.2) fun _ _ h hg => ⟨h.1, hg⟩

theorem keeps_write {rect : Rect} {s : PixelState}
    (hfill : ∀ c : Config, c.Accepts s → Keeps (Q c) (Grid.fill rect s)) :
    Keeps (Fits Q) (write rect s) :=
  keeps_fits fun _ => Keeps.get_bind fun _ hm =>
    Keeps.ite
      (fun _ => Keeps.ite (fun ha => keeps_onGrid (hfill _ (hm.1 ▸ ha))) fun _ => Keeps.throw _)
      fun _ => Keeps.throw _

theorem keeps_write_sound (rect : Rect) (s : PixelState) : Keeps Sound (write rect s) :=
  keeps_write (Q := fun _ => Grid.Sound) fun _ _ => Grid.keeps_fill _

theorem keeps_tryWrite {rect : Rect} {s : PixelState}
    (hfill : ∀ c : Config, c.Accepts s → Keeps (Q c) (Grid.fill rect s)) :
    Keeps (Fits Q) (tryWrite rect s) :=
  keeps_fits fun _ => Keeps.get_bind fun _ hm =>
    Keeps.ite
      (fun _ => Keeps.ite
        (fun ha => Keeps.bind (keeps_onGrid (hfill _ (hm.1 ▸ ha))) fun _ => Keeps.pure _)
        fun _ => Keeps.pure _)
      fun _ => Keeps.pure _

theorem keeps_copyRegion {rect : Rect}
    (hcopy : ∀ (c : Config) states, Keeps (Q c) (Grid.copy rect states c.received))
    (source : CoverageMap) : Keeps (Fits Q) (copyRegion rect source) :=
  keeps_fits fun _ => Keeps.get_bind fun _ hm =>
    Keeps.ite
      (fun _ => Keeps.ite (fun _ => Keeps.pure _) fun _ =>
        Keeps.bind (Keeps.query _) fun states => keeps_onGrid (hm.1 ▸ hcopy _ states))
      fun _ => Keeps.throw _

theorem keeps_tryCopyRegion {rect : Rect}
    (hcopy : ∀ (c : Config) states, Keeps (Q c) (Grid.copy rect states c.received))
    (source : CoverageMap) : Keeps (Fits Q) (tryCopyRegion rect source) :=
  Keeps.bind (fun _ h => h) fun _ =>
    Keeps.ite
      (fun _ => Keeps.ite
        (fun _ => Keeps.bind (keeps_copyRegion hcopy source) fun _ => Keeps.pure _)
        fun _ => Keeps.pure _)
      fun _ => Keeps.pure _

theorem keeps_copyRow (x0 x1 y : Int)
    (hcopy : ∀ rect (c : Config) states, Keeps (Q c) (Grid.copy rect states c.received))
    (source : CoverageMap) : Keeps (Fits Q) (copyRow x0 x1 y source) :=
  Keeps.bind (Keeps.query _) fun _ => keeps_copyRegion (hcopy _) source

end Fits

end CoverageMap

/-! ## Histories -/

namespace Atlas

variable {κ : Type} [DecidableEq κ]

/-- The numbers of a command are coordinates. -/
def Command.InRange : Command κ → Prop
  | .create _ bounds _ | .reset _ bounds => bounds.InRange
  | .setRestriction _ r => ∀ s ∈ r, s.InRange
  | .write _ rect _ | .tryWrite _ rect _ => rect.InRange
  | .copyRegion _ rect _ | .tryCopyRegion _ rect _ => rect.InRange
  | .copyRow _ x0 x1 y _ => IsCoord x0 ∧ IsCoord x1 ∧ IsCoord y
  | .clone .. | .setDecomposeBorders .. | .writeAll .. | .swap .. => True

/-- The atlases that a history without a fault leads to. -/
inductive Reachable : Atlas κ → Prop where
  | empty : Reachable {}
  | step {a b : Atlas κ} {c : Command κ} {answer : Option WriteError} :
      Reachable a → c.InRange → run c a = .ok answer b → Reachable b

/-! ### Commands that are no change of one map -/

theorem run_create (name : κ) (bounds : Rect) (config : Config) (a : Atlas κ) :
    run (.create name bounds config) a =
      match CoverageMap.create bounds config with
      | .ok m => .ok none (a.insert name m)
      | .error f => .error f a := by
  unfold run
  simp only [bind, EStateM.bind, query]
  cases CoverageMap.create bounds config with
  | ok m => rfl
  | error f => rfl

theorem run_clone (name source : κ) (a : Atlas κ) :
    run (.clone name source) a = .ok none
      (match a.get? source with
      | none => a
      | some m => a.insert name m) := by
  unfold run
  simp only [get_bind_apply]
  cases a.get? source with
  | none => rfl
  | some m => rfl

theorem run_swap (name other : κ) (a : Atlas κ) :
    run (.swap name other) a = .ok none
      (match a.get? name, a.get? other with
      | some m, some n => (a.insert name (m.swap n).1).insert other (m.swap n).2
      | _, _ => a) := by
  unfold run
  simp only [get_bind_apply]
  cases a.get? name with
  | none => rfl
  | some m =>
    cases a.get? other with
    | none => rfl
    | some n => rfl

/-! ### What all maps of an atlas have -/

section All

variable {P : CoverageMap → Prop} {a : Atlas κ}

/-- Every map of the atlas has the property. -/
def All (P : CoverageMap → Prop) (a : Atlas κ) : Prop := ∀ name m, a.get? name = some m → P m

theorem All.insert (ha : a.All P) (name : κ) {m : CoverageMap} (hm : P m) :
    (a.insert name m).All P := by
  intro other n hn
  by_cases h : other = name
  · rw [h, get?_insert_self] at hn
    exact Option.some.inj hn ▸ hm
  · rw [get?_insert_of_ne a m h] at hn
    exact ha other n hn

theorem keeps_onMap {α : Type} (name : κ) {u : Update CoverageMap α} (hu : Keeps P u) :
    Keeps (All P) (onMap name u) := by
  intro a ha
  unfold left onMap
  cases hm : a.get? name with
  | none => exact ha
  | some m =>
    have h := hu m (ha name m hm)
    cases hum : u m with
    | ok x n => simp only [hum]; exact ha.insert name (left_of_ok hum ▸ h)
    | error f n => simp only [hum]; exact ha.insert name (left_of_error hum ▸ h)

theorem keeps_onPair {α : Type} (name source : κ) {u : CoverageMap → Update CoverageMap α}
    (hu : ∀ m, Keeps P (u m)) : Keeps (All P) (onPair name source u) := by
  refine Keeps.bind (fun _ h => h) fun a => ?_
  cases a.get? source with
  | none => exact Keeps.pure _
  | some m => exact keeps_onMap name (hu m)

theorem keeps_plain {u : Update (Atlas κ) (Option Unit)} (hu : Keeps (All P) u) :
    Keeps (All P) (run.plain u) :=
  Keeps.bind hu fun _ => Keeps.pure _

/-- What a command asks of a property of maps, so that every map keeps it. A reset only has
to keep it when it succeeds. -/
def Command.Keeps (P : CoverageMap → Prop) : Command κ → Prop
  | .create _ bounds config => ∀ m, CoverageMap.create bounds config = .ok m → P m
  | .clone .. => True
  | .reset _ bounds => ∀ m n, P m → CoverageMap.reset bounds m = .ok () n → P n
  | .setDecomposeBorders _ on => Update.Keeps P (CoverageMap.setDecomposeBorders on)
  | .setRestriction _ r => Update.Keeps P (CoverageMap.setRestriction r)
  | .write _ rect s => Update.Keeps P (CoverageMap.write rect s)
  | .tryWrite _ rect s => Update.Keeps P (CoverageMap.tryWrite rect s)
  | .writeAll _ s => Update.Keeps P (CoverageMap.writeAll s)
  | .copyRegion _ rect _ => ∀ source, Update.Keeps P (CoverageMap.copyRegion rect source)
  | .tryCopyRegion _ rect _ => ∀ source, Update.Keeps P (CoverageMap.tryCopyRegion rect source)
  | .copyRow _ x0 x1 y _ => ∀ source, Update.Keeps P (CoverageMap.copyRow x0 x1 y source)
  | .swap .. => ∀ m n, P m → P n → P (m.swap n).1 ∧ P (m.swap n).2

/-- A reset that fails has lost the cells of its map. -/
def Command.Survived (c : Command κ) (a : Atlas κ) : Prop :=
  ∀ name bounds, c = .reset name bounds → ∃ answer b, run c a = .ok answer b

/-- **What a command keeps of one map, it keeps of all,** however it ends. -/
theorem All.left_run {c : Command κ} (ha : a.All P) (hc : c.Keeps P) (hs : c.Survived a) :
    ((run c).left a).All P := by
  cases c with
  | create name bounds config =>
    unfold left
    rw [run_create]
    cases hm : CoverageMap.create bounds config with
    | error f => exact ha
    | ok m => exact ha.insert name (hc m hm)
  | clone name source =>
    rw [left_of_ok (run_clone name source a)]
    cases hm : a.get? source with
    | none => exact ha
    | some m => exact ha.insert name (ha source m hm)
  | reset name bounds =>
    obtain ⟨answer, b, h⟩ := hs name bounds rfl
    rw [left_of_ok h]
    unfold run run.plain onMap at h
    simp only [bind, EStateM.bind] at h
    cases hm : a.get? name with
    | none => simp only [hm] at h; cases h; exact ha
    | some m =>
      cases hu : CoverageMap.reset bounds m with
      | error f n => simp only [hm, hu] at h; exact absurd h (by simp)
      | ok x n =>
        simp only [hm, hu] at h
        cases h
        exact ha.insert name (hc m n (ha name m hm) hu)
  | setDecomposeBorders name on => exact keeps_plain (keeps_onMap name hc) a ha
  | setRestriction name r => exact keeps_plain (keeps_onMap name hc) a ha
  | write name rect s => exact keeps_plain (keeps_onMap name hc) a ha
  | tryWrite name rect s =>
    exact Keeps.bind (keeps_onMap name hc) (fun _ => Keeps.pure _) a ha
  | writeAll name s => exact keeps_plain (keeps_onMap name hc) a ha
  | copyRegion name rect source => exact keeps_plain (keeps_onPair name source hc) a ha
  | tryCopyRegion name rect source =>
    exact Keeps.bind (keeps_onPair name source hc) (fun _ => Keeps.pure _) a ha
  | copyRow name x0 x1 y source => exact keeps_plain (keeps_onPair name source hc) a ha
  | swap name other =>
    rw [left_of_ok (run_swap name other a)]
    cases hm : a.get? name with
    | none => exact ha
    | some m =>
      cases hn : a.get? other with
      | none => exact ha
      | some n =>
        obtain ⟨hm', hn'⟩ := hc m n (ha name m hm) (ha other n hn)
        exact (ha.insert name hm').insert other hn'

end All

/-- A property of grids and options that the changes of a grid keep. Of the options, only
whether reservations are allowed may matter. -/
structure Kept (Q : Config → Grid → Prop) : Prop where
  blank : ∀ {bounds : Rect} (config : Config), bounds.InRange →
    Q config (CoverageMap.blank bounds config).grid
  fill : ∀ {config : Config} {s : PixelState} (rect : Rect), config.Accepts s →
    Update.Keeps (Q config) (Grid.fill rect s)
  copy : ∀ (rect : Rect) (config : Config) (states : Grid),
    Update.Keeps (Q config) (Grid.copy rect states config.received)
  congr : ∀ {c d : Config} {g : Grid}, c.reservations = d.reservations → Q c g → Q d g

/-- **What the changes of a grid keep, commands keep.** A change of all cells checks nothing,
so of that one it has to be known. -/
theorem Kept.keeps_fits {ι : Type} {Q : Config → Grid → Prop} (hQ : Kept Q) {c : Command ι}
    (hc : c.InRange)
    (hall : ∀ name s, c = .writeAll name s → ∀ config g, Q config g → Q config (g.filled s)) :
    c.Keeps (CoverageMap.Fits Q) := by
  cases c with
  | create name bounds config =>
    intro m h
    rw [CoverageMap.eq_blank_of_create h]
    exact hQ.blank config hc
  | clone name source => trivial
  | reset name bounds =>
    intro m n _ h
    rw [CoverageMap.eq_blank_of_reset h]
    exact hQ.blank m.config hc
  | setDecomposeBorders name on => exact Keeps.modify fun m h => hQ.congr (c := m.config) rfl h
  | setRestriction name r => exact Keeps.modify fun _ h => h
  | write name rect s => exact CoverageMap.keeps_write fun _ => hQ.fill rect
  | tryWrite name rect s => exact CoverageMap.keeps_tryWrite fun _ => hQ.fill rect
  | writeAll name s => exact Keeps.modify fun _ h => hall name s rfl _ _ h
  | copyRegion name rect source => exact CoverageMap.keeps_copyRegion (hQ.copy rect)
  | tryCopyRegion name rect source => exact CoverageMap.keeps_tryCopyRegion (hQ.copy rect)
  | copyRow name x0 x1 y source => exact CoverageMap.keeps_copyRow x0 x1 y hQ.copy
  | swap name other =>
    -- the grid brings the reservations along
    exact fun m n hm hn => ⟨hQ.congr (c := n.config) rfl hn, hQ.congr (c := m.config) rfl hm⟩

/-! ### Every map is sound -/

/-- Every map of the atlas is sound. -/
def Sound (a : Atlas κ) : Prop := ∀ name m, a.get? name = some m → m.Sound

theorem kept_sound : Kept fun _ => Grid.Sound where
  blank config hb := CoverageMap.sound_blank hb config
  fill _ _ := Grid.keeps_fill _
  copy _ config states := Grid.keeps_copy states config.received
  congr _ h := h

theorem Command.keeps_sound {ι : Type} {c : Command ι} (hc : c.InRange) :
    c.Keeps CoverageMap.Sound :=
  kept_sound.keeps_fits hc fun _ s _ _ _ hg => Grid.sound_filled hg s

/-- **Every command that succeeds leaves sound maps behind.** -/
theorem sound_of_run {a b : Atlas κ} {c : Command κ} {answer : Option WriteError}
    (ha : a.Sound) (hc : c.InRange) (h : run c a = .ok answer b) : b.Sound := by
  have hall : a.All CoverageMap.Sound := ha
  exact left_of_ok h ▸ hall.left_run (Command.keeps_sound hc) fun _ _ _ => ⟨answer, b, h⟩

theorem sound_of_reachable {a : Atlas κ} (h : a.Reachable) : a.Sound := by
  induction h with
  | empty => intro name m hm; exact absurd hm (by simp [get?])
  | step _ hc hrun ih => exact sound_of_run ih hc hrun

end Atlas

/-- The maps of the atlases that a history without a fault leads to. -/
def CoverageMap.Reachable (m : CoverageMap) : Prop :=
  ∃ (κ : Type) (_ : DecidableEq κ) (a : Atlas κ) (name : κ),
    a.Reachable ∧ a.get? name = some m

/-- A new map is reachable. -/
theorem CoverageMap.reachable_of_create {bounds : Rect} {config : Config} {m : CoverageMap}
    (hb : bounds.InRange) (h : create bounds config = .ok m) : m.Reachable := by
  have hrun : Atlas.run (.create () bounds config) {} = .ok none (Atlas.insert {} () m) := by
    rw [Atlas.run_create, h]
  exact ⟨Unit, inferInstance, _, (), .step (c := .create () bounds config) .empty hb hrun, rfl⟩

/-- A reachable map may be restricted to any rectangle. -/
theorem CoverageMap.Reachable.restrict {m : CoverageMap} (hm : m.Reachable) {r : Option Rect}
    (hr : ∀ s ∈ r, s.InRange) : Reachable { m with restriction := r } := by
  obtain ⟨κ, _, a, name, ha, hname⟩ := hm
  have hrun : Atlas.run (.setRestriction name r) a =
      .ok none (a.insert name { m with restriction := r }) := by
    simp only [Atlas.run, Atlas.run.plain, Atlas.onMap, bind, EStateM.bind, hname]
    rfl
  exact ⟨κ, inferInstance, _, name, .step (c := .setRestriction name r) ha hr hrun,
    Atlas.get?_insert_self ..⟩

/-- **Every reachable map is sound.** -/
theorem CoverageMap.Reachable.sound {m : CoverageMap} (h : m.Reachable) : m.grid.Sound := by
  obtain ⟨κ, _, a, name, ha, hm⟩ := h
  exact Atlas.sound_of_reachable ha name m hm

theorem CoverageMap.view_of_sound {m : CoverageMap} (hm : m.grid.Sound) : m.view = .ok m.grid :=
  Grid.checked_of_sized hm.1

/-- A map with pixels of all three states, work around them and work between them. -/
def CoverageMap.mixed : CoverageMap where
  grid :=
    { bounds := ⟨0, 0, 4, 4⟩
      cells := #[.unrendered, .unrendered, .unrendered, .unrendered,
        .unrendered, .available, .reserved, .unrendered,
        .unrendered, .unrendered, .available, .unrendered,
        .unrendered, .unrendered, .unrendered, .unrendered] }

theorem CoverageMap.mixed_reachable : mixed.Reachable := by
  have h : @Atlas.Reachable Unit _ ⟨[((), mixed)]⟩ :=
    .step (c := .write () ⟨2, 1, 3, 2⟩ .reserved)
      (.step (c := .write () ⟨2, 2, 3, 3⟩ .available)
        (.step (c := .write () ⟨1, 1, 2, 2⟩ .available)
          (.step (c := .create () ⟨0, 0, 4, 4⟩ {}) .empty
            (show Rect.InRange _ by decide) rfl)
          (show Rect.InRange _ by decide) rfl)
        (show Rect.InRange _ by decide) rfl)
      (show Rect.InRange _ by decide) rfl
  exact ⟨Unit, inferInstance, _, (), h, rfl⟩

end PixelCoverage
