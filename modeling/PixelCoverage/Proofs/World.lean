import Mathlib.Logic.Relation
import PixelCoverage.Proofs.Session
import PixelCoverage.Proofs.Steps

/-!
# Whatever happens to a shared map

Workers only reach a shared map through their steps, but whoever shares it may have it in hand as
well, and do to it what can be done to any map: give it other bounds, copy from another map into
it, or swap it with one. A `World` is a site together with these other maps, and `Moves` is
anything that may happen in it, faults included.

A property of maps that a write, a restriction and every command keep holds of all maps of a world
at all times. There are two that matter: every map is sound, and none holds a reserved pixel
that does not take reservations.
-/

namespace PixelCoverage

open Update Atlas

variable {κ : Type}

/-- A site, and the maps beside the shared one. -/
structure World (κ : Type) where
  site : Site
  maps : Atlas κ := {}

namespace World

/-- A property of maps that nothing takes away. -/
structure Stable (κ : Type) (P : CoverageMap → Prop) : Prop where
  write : ∀ rect st, Keeps P (CoverageMap.write rect st)
  restrict : ∀ r, Keeps P (CoverageMap.setRestriction r)
  command : ∀ c : Command κ, c.InRange → c.Offered → c.Keeps P

theorem stable_sound : Stable κ CoverageMap.Sound where
  write := CoverageMap.keeps_write_sound
  restrict _ := Keeps.modify fun _ h => h
  command _ hc _ := Command.keeps_sound hc

theorem stable_holds : Stable κ (CoverageMap.Fits fun config => Grid.Holds config.Accepts) where
  write _ _ := CoverageMap.keeps_write fun _ ha => Grid.keeps_holds_fill ha
  restrict _ := Keeps.modify fun _ h => h
  command _ hc ho := Command.keeps_holds hc ho

variable [DecidableEq κ] {P : CoverageMap → Prop} {w w' : World κ}

/-- All maps, with the shared one under a name. -/
def inHand (w : World κ) (name : κ) : Atlas κ := w.maps.insert name w.site.shared.map

/-- What may happen. -/
inductive Moves : World κ → World κ → Prop where
  /-- A step, whether or not it ends in a fault. -/
  | step {w : World κ} {x : Site.Step} : x.InRange → Moves w { w with site := w.site.after x }
  /-- Somebody has the shared map in hand, and gives a command to it or to another one. -/
  | edit {w : World κ} {name : κ} {c : Command κ} {m : CoverageMap} :
      c.InRange → c.Offered → c.Survived (w.inHand name) →
      ((run c).left (w.inHand name)).get? name = some m →
      Moves w
        { site := { w.site with shared := { w.site.shared with map := m } }
          maps := (run c).left (w.inHand name) }
  /-- Somebody sets the level of the log, or takes records out of it. -/
  | log {w : World κ} {maxLevel : Log.Level} {log : Array Log.Record} :
      Moves w { w with site := { w.site with shared := { w.site.shared with maxLevel, log } } }

/-- Every map has the property. -/
def All (P : CoverageMap → Prop) (w : World κ) : Prop := P w.site.shared.map ∧ w.maps.All P

/-- **What nothing takes away stays.** -/
theorem All.of_moves (hP : Stable κ P) (hw : w.All P) (h : w.Moves w') : w'.All P := by
  cases h with
  | step =>
    refine ⟨?_, hw.2⟩
    rw [Site.after_eq_left]
    exact Site.keeps_step hP.write hP.restrict _ w.site hw.1
  | edit hc ho hs hm =>
    have hall := (hw.2.insert _ hw.1).left_run (hP.command _ hc ho) hs
    exact ⟨hall _ _ hm, hall⟩
  | log => exact hw

theorem All.of_run (hP : Stable κ P) (hw : w.All P) (h : Relation.ReflTransGen Moves w w') :
    w'.All P := by
  induction h with
  | refl => exact hw
  | tail _ hmove ih => exact ih.of_moves hP hmove

/-- The worlds there are. A map that comes from a session is shared, and from then on anything
may happen. -/
inductive Reached : World κ → Prop where
  | share {w : World κ} {name : κ} : w.maps.Session →
      w.maps.get? name = some w.site.shared.map → w.site.live = [] → Reached w
  | move {w w' : World κ} : Reached w → Moves w w' → Reached w'

theorem Reached.all (hP : Stable κ P) (h : w.Reached) : w.All P := by
  induction h with
  | share hs hm _ =>
    have hall := hs.all hP.command
    exact ⟨hall _ _ hm, hall⟩
  | move _ hmove ih => exact ih.of_moves hP hmove

/-- **Every shared map is sound.** -/
theorem Reached.sound (h : w.Reached) : w.site.shared.map.grid.Sound :=
  (h.all stable_sound).1

/-- **No shared map holds a reservation that it does not take.** -/
theorem Reached.not_reserved (h : w.Reached) (hoff : w.site.shared.map.config.reservations = false)
    (p : Pixel) : w.site.shared.map.grid.get? p ≠ some .reserved :=
  CoverageMap.not_reserved_of_holds (h.all stable_holds).1 hoff p

end World

end PixelCoverage
