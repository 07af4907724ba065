import PixelCoverage.Proofs.Flag

/-!
# What holds of every map at all times

A map that takes no reservations holds no reserved pixel. No type says so: the states are in
the grid, the options are beside it, and a swap even tears the two apart and puts them together
anew. So every command has to see to it, and on both maps if it takes two. A write checks, a
copy translates what it reads, and a swap lets the setting go with the cells.

The invariant speaks of cells and not of pixels. Over inverted bounds there are cells that
belong to no pixel, and a swap does not ask whether anyone can read what it moves.

A session goes on after a refusal and after a fault, with whatever these have left. It only
must not lose the cells of a map to a reset, as `PixelCoverage.Proofs.Consistency` says that it
can.
-/

namespace PixelCoverage

open Update

/-! ## The cells of a grid -/

namespace Grid

variable {Q : PixelState → Prop} {g : Grid} {r : Rect}

/-- Every cell is in such a state, whether or not it belongs to a pixel. -/
def Holds (Q : PixelState → Prop) (g : Grid) : Prop := ∀ s ∈ g.cells, Q s

theorem Holds.of_get? (h : g.Holds Q) {p : Pixel} {s : PixelState} (hs : g.get? p = some s) :
    Q s := by
  rw [get?_of_mem (mem_bounds_of_get? hs)] at hs
  exact h s (Array.mem_of_getElem? hs)

/-- Nothing gets into the cells but what the line holds. -/
theorem mem_of_mem_overwrite {cells : Array PixelState} {first : Nat} {states : List PixelState}
    {s : PixelState} (h : s ∈ overwrite cells first states) : s ∈ cells ∨ s ∈ states := by
  obtain ⟨i, hi⟩ := Array.mem_iff_getElem?.mp h
  rw [getElem?_overwrite] at hi
  split at hi
  · exact Or.inr (List.mem_of_getElem? hi)
  · exact Or.inl (Array.mem_of_getElem? hi)

theorem keeps_holds_putRow (y x0 : Int) {states : List PixelState} (hl : ∀ s ∈ states, Q s) :
    Keeps (Holds Q) (putRow y x0 states) := by
  refine keeps_putRow_of fun g hg s hs => ?_
  rcases mem_of_mem_overwrite hs with hold | hnew
  · exact hg s hold
  · exact hl s hnew

theorem keeps_holds_fill {s : PixelState} (hs : Q s) : Keeps (Holds Q) (fill r s) :=
  Keeps.forM _ fun _ _ => keeps_holds_putRow _ _ fun _ ht => (List.eq_of_mem_replicate ht) ▸ hs

theorem keeps_holds_copy (source : Grid) {receive : PixelState → PixelState}
    (hr : ∀ s, Q (receive s)) : Keeps (Holds Q) (copy r source receive) := by
  refine Keeps.forM _ fun _ _ => Keeps.bind (Keeps.query _) fun states => ?_
  refine keeps_holds_putRow _ _ fun s hs => ?_
  obtain ⟨t, _, rfl⟩ := List.mem_map.mp hs
  exact hr t

theorem holds_replicate (bounds : Rect) (n : Nat) {s : PixelState} (hs : Q s) :
    Holds Q ⟨bounds, Array.replicate n s⟩ := by
  intro t ht
  rw [(Array.mem_replicate.mp ht).2]
  exact hs

end Grid

/-! ## Lawful maps -/

namespace CoverageMap

variable {m : CoverageMap}

/-- The buffer, as it would be stored. -/
def bytes (m : CoverageMap) : List Nat := m.grid.cells.toList.map PixelState.toByte

/-- A map whose cells, bounds and options go together. -/
structure Lawful (m : CoverageMap) : Prop where
  length : m.bytes.length = m.bounds.area
  /-- The byte of a reserved pixel is there only if the map takes reservations. -/
  bytes : ∀ b ∈ m.bytes, b = 0 ∨ b = 1 ∨ b = 2 ∧ m.config.reservations = true
  read : m.config.reservations = false → ∀ p, ∃ s, m.read p = .ok s ∧ s ≠ some .reserved
  /-- A map without reservations has nothing to tell of. -/
  quiet_box : m.config.reservations = false →
    ∀ roi, ∃ t, m.uncoveredBox .trimap roi = .ok t ∧ t.reserved = false
  quiet_list : m.config.reservations = false →
    ∀ roi, ∃ w, m.workList .trimap roi = .ok w ∧ w.reservedElsewhere = false
  quiet_strips : m.config.reservations = false →
    ∀ roi, ∃ answer, m.decompose .trimap roi = .ok answer ∧
      ∀ d ∈ answer, d.reservedElsewhere = false

theorem not_reserved_of_holds (hc : m.grid.Holds m.config.Accepts)
    (hoff : m.config.reservations = false) (p : Pixel) : m.grid.get? p ≠ some .reserved := by
  intro hres
  have hon := hc.of_get? hres rfl
  rw [hoff] at hon
  exact absurd hon (by simp)

theorem lawful_of_holds (hm : m.grid.Sound) (hc : m.grid.Holds m.config.Accepts) : m.Lawful := by
  have hno : m.config.reservations = false → ∀ p, m.grid.get? p ≠ some .reserved :=
    not_reserved_of_holds hc
  refine ⟨?_, ?_, ?_, ?_, ?_, ?_⟩
  · rw [bytes, List.length_map, Array.length_toList]
    exact hm.1
  · intro b hb
    obtain ⟨s, hs, rfl⟩ := List.mem_map.mp hb
    cases s with
    | unrendered => exact Or.inl rfl
    | available => exact Or.inr (Or.inl rfl)
    | reserved => exact Or.inr (Or.inr ⟨rfl, hc _ (Array.mem_toList_iff.mp hs) rfl⟩)
  · exact fun hoff p => ⟨_, read_of_sized hm.1 p, hno hoff p⟩
  · intro hoff roi
    obtain ⟨t, et, _, hres⟩ := uncoveredBox_found hm .trimap roi
    refine ⟨t, et, Bool.eq_false_iff.mpr fun hf => ?_⟩
    obtain ⟨p, _, _, hp⟩ := hres.mp hf
    exact hno hoff p hp
  · intro hoff roi
    obtain ⟨w, _, ew, hl⟩ := workList_listed hm .trimap roi
    refine ⟨w, ew, Bool.eq_false_iff.mpr fun hf => ?_⟩
    obtain ⟨p, _, hp, _⟩ := hl.told hf
    exact hno hoff p hp
  · intro hoff roi
    obtain ⟨answer, ea, _, hd⟩ := decompose_answered hm .trimap roi
    refine ⟨answer, ea, fun d h => Bool.eq_false_iff.mpr fun hf => ?_⟩
    obtain ⟨p, _, hp, _⟩ := (hd d h).2 hf
    exact hno hoff p hp

end CoverageMap

/-! ## Sessions -/

namespace Atlas

variable {κ : Type}

/-- There is a call for the command. All pixels at once can be made available or unrendered,
but not reserved. -/
def Command.Offered : Command κ → Prop
  | .writeAll _ s => s ≠ .reserved
  | .create .. | .clone .. | .reset .. | .setDecomposeBorders .. | .setRestriction .. => True
  | .write .. | .tryWrite .. | .copyRegion .. | .tryCopyRegion .. | .copyRow .. => True
  | .swap .. => True

theorem kept_holds : Kept fun c => Grid.Holds c.Accepts where
  blank _ _ := Grid.holds_replicate _ _ nofun
  fill _ ha := Grid.keeps_holds_fill ha
  copy _ config states := Grid.keeps_holds_copy states config.accepts_received
  congr h hg := fun s hs hres => h ▸ hg s hs hres

theorem Command.keeps_holds {c : Command κ} (hc : c.InRange) (ho : c.Offered) :
    c.Keeps (CoverageMap.Fits fun config => Grid.Holds config.Accepts) := by
  refine kept_holds.keeps_fits hc fun name s h config g _ => ?_
  rw [h] at ho
  exact Grid.holds_replicate _ _ fun hres => absurd hres ho

variable [DecidableEq κ]

/-- What a session leads to. Its commands may be refused and may end in a fault, and the
session goes on with what they leave. -/
inductive Session : Atlas κ → Prop where
  | empty : Session {}
  | step {a : Atlas κ} {c : Command κ} : Session a → c.InRange → c.Offered → c.Survived a →
      Session ((run c).left a)

variable {a : Atlas κ} {name : κ} {m : CoverageMap}

/-- What every command keeps holds of every map in a session. -/
theorem Session.all {P : CoverageMap → Prop} (h : a.Session)
    (hP : ∀ c : Command κ, c.InRange → c.Offered → c.Keeps P) : a.All P := by
  induction h with
  | empty => exact fun name m hm => absurd hm (by simp [get?])
  | step _ hc ho hs ih => exact ih.left_run (hP _ hc ho) hs

/-- **In a session every map is lawful at all times,** also after refusals and faults. -/
theorem lawful_of_session (h : a.Session) (hm : a.get? name = some m) : m.Lawful := by
  have hsound := h.all fun _ hc _ => Command.keeps_sound hc
  have hholds := h.all fun _ hc ho => Command.keeps_holds hc ho
  exact CoverageMap.lawful_of_holds (hsound name m hm) (hholds name m hm)

/-- A map without reservations is asked to hold reserved pixels in three ways: by a write, which
ends in a fault, by a copy of them, and by a swap. -/
theorem lawful_of_session_smuggled :
    ∃ (a : Atlas Bool) (m n : CoverageMap), a.Session ∧ a.get? true = some m ∧
      a.get? false = some n ∧ m.Lawful ∧ n.Lawful ∧
      m.bytes = [2, 2, 2, 2] ∧ m.config.reservations = true ∧
      n.bytes = [0, 0, 1] ∧ n.config.reservations = false := by
  have h : @Session Bool _ _ :=
    .step (c := .swap true false)
      (.step (c := .copyRegion true ⟨0, 0, 2, 1⟩ false)
        (.step (c := .write true ⟨0, 0, 2, 1⟩ .reserved)
          (.step (c := .writeAll true .available)
            (.step (c := .write false ⟨0, 0, 2, 2⟩ .reserved)
              (.step (c := .create false ⟨0, 0, 2, 2⟩ {})
                (.step (c := .create true ⟨0, 0, 3, 1⟩ .single) .empty
                  (show Rect.InRange _ by decide) trivial nofun)
                (show Rect.InRange _ by decide) trivial nofun)
              (show Rect.InRange _ by decide) trivial nofun)
            trivial nofun nofun)
          (show Rect.InRange _ by decide) trivial nofun)
        (show Rect.InRange _ by decide) trivial nofun)
      trivial trivial nofun
  exact ⟨_, _, _, h, rfl, rfl, lawful_of_session h (show get? _ true = _ from rfl),
    lawful_of_session h (show get? _ false = _ from rfl), rfl, rfl, rfl, rfl⟩

end Atlas

end PixelCoverage
