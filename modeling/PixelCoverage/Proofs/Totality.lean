import PixelCoverage.Proofs.BoundingBox

/-!
# Every question is answered

No question about a reachable map ends in a fault, whatever the region and the restriction:
edges are stepped within 32 bits, spans of rows and columns lie in the bounds, and the strips
of a box tile it. That much is part of what has been shown of the answers.

What is left to show is that the loops of the passes end. A sweep takes the number of lines
ahead of it as a bound, and would stop at the bound without a word. Here the loop is written
down without one, as a relation between an edge and the outcome of the loop that starts
there, faults included. The sweep is this relation: the bound is never felt, on any
rectangle of any grid.
-/

namespace PixelCoverage

namespace Sweep

/-- The loop of a pass, without a bound: as long as there is `more` ahead of the edge, the line
there is looked at, and moves the edge if it is accepted. -/
inductive Loop (more : Int → Prop) (look : Int → Except Fault LineScan)
    (move : Int → Except Fault Int) : Int → Except Fault Sweep → Prop where
  | done {e : Int} : ¬ more e → Loop more look move e (.ok ⟨e, false⟩)
  | unseen {e : Int} {f : Fault} : more e → look e = .error f → Loop more look move e (.error f)
  | rests {e : Int} {l : LineScan} : more e → look e = .ok l → ¬ l.accepted = true →
      Loop more look move e (.ok ⟨e, l.reserved⟩)
  | stuck {e : Int} {l : LineScan} {f : Fault} : more e → look e = .ok l → l.accepted = true →
      move e = .error f → Loop more look move e (.error f)
  | moves {e next : Int} {l : LineScan} {x : Except Fault Sweep} : more e → look e = .ok l →
      l.accepted = true → move e = .ok next → Loop more look move next x →
      Loop more look move e (x.map fun s => ⟨s.edge, l.reserved || s.reserved⟩)

/-- One round of the loop, with `rest` for the rounds after it. -/
def round (look : Int → Except Fault LineScan) (move : Int → Except Fault Int)
    (rest : Int → Except Fault Sweep) (e : Int) : Except Fault Sweep := do
  let line ← look e
  if line.accepted then
    let s ← rest (← move e)
    return ⟨s.edge, line.reserved || s.reserved⟩
  else return ⟨e, line.reserved⟩

variable {more : Int → Prop} {look scan : Int → Except Fault LineScan}
  {move : Int → Except Fault Int} {stop e : Int} {x : Except Fault Sweep}

/-- What goes round by round, and comes closer to its end in each, is the loop: that ends, and
in no other way. -/
theorem loop_iff (sweep : Int → Except Fault Sweep) (ahead : Int → Nat)
    (hdone : ∀ e, ¬ more e → sweep e = .ok ⟨e, false⟩)
    (hround : ∀ e, more e → sweep e = round look move sweep e)
    (hcloser : ∀ e next, more e → move e = .ok next → ahead next < ahead e) :
    Loop more look move e x ↔ sweep e = x := by
  refine ⟨fun h => ?_, ?_⟩
  · -- however the loop has come to its end, the sweep has gone the same way
    induction h with
    | done hmore => exact hdone _ hmore
    | unseen hmore hl => rw [hround _ hmore, round, hl]; rfl
    | rests hmore hl ha =>
      rw [hround _ hmore, round, hl]
      exact if_neg ha
    | stuck hmore hl ha hnext =>
      rw [hround _ hmore, round, hl, hnext]
      exact if_pos ha
    | moves hmore hl ha hnext _ ih =>
      rw [hround _ hmore, round, hl, hnext, ← ih]
      exact if_pos ha
  · rintro rfl
    -- the loop is built up from its end, which comes closer with each round
    induction hn : ahead e using Nat.strong_induction_on generalizing e with
    | h n ih =>
      by_cases hmore : more e
      · rw [hround e hmore, round]
        cases hl : look e with
        | error f => exact .unseen hmore hl
        | ok l =>
          simp only [bind, Except.bind]
          by_cases ha : l.accepted = true
          · rw [if_pos ha]
            cases hnext : move e with
            | error f => exact .stuck hmore hl ha hnext
            | ok next =>
              exact .moves hmore hl ha hnext (ih _ (hn ▸ hcloser e next hmore hnext) rfl)
          · rw [if_neg ha]
            exact .rests hmore hl ha
      · rw [hdone e hmore]
        exact .done hmore

/-- **Raising an edge is a loop.** -/
theorem loop_up_iff :
    Loop (· < stop) scan stepUp e x ↔ up scan (stop - e).toNat e = x := by
  refine loop_iff (fun e => up scan (stop - e).toNat e) (fun e => (stop - e).toNat)
    (fun e he => ?_) (fun e he => ?_) (fun e next he hnext => ?_)
  · simp only [Int.toNat_eq_zero.mpr (show stop - e ≤ 0 by omega), up]
  · obtain ⟨n, hn⟩ : ∃ n, (stop - e).toNat = n + 1 := ⟨(stop - (e + 1)).toNat, by omega⟩
    simp only [hn, up, round]
    refine congrArg _ (funext fun l => ?_)
    cases hnext : stepUp e with
    | error f => rfl
    | ok next =>
      have hn' : (stop - next).toNat = n := by have := (stepUp_eq_ok_iff.mp hnext).2; omega
      simp only [bind, Except.bind, hn']
  · have := (stepUp_eq_ok_iff.mp hnext).2
    omega

/-- **Lowering an edge is a loop.** The line beside the edge is the one before it. -/
theorem loop_down_iff :
    Loop (stop < ·) (fun e => stepDown e >>= scan) stepDown e x ↔
      down scan (e - stop).toNat e = x := by
  refine loop_iff (fun e => down scan (e - stop).toNat e) (fun e => (e - stop).toNat)
    (fun e he => ?_) (fun e he => ?_) (fun e next he hnext => ?_)
  · simp only [Int.toNat_eq_zero.mpr (show e - stop ≤ 0 by omega), down]
  · obtain ⟨n, hn⟩ : ∃ n, (e - stop).toNat = n + 1 := ⟨(e - 1 - stop).toNat, by omega⟩
    simp only [hn, down, round]
    cases hnext : stepDown e with
    | error f => rfl
    | ok next =>
      have hn' : (next - stop).toNat = n := by have := (stepDown_eq_ok_iff.mp hnext).2; omega
      simp only [bind, Except.bind, hn']
  · have := (stepDown_eq_ok_iff.mp hnext).2
    omega

end Sweep

namespace Grid

variable {g : Grid} {c : Criterion} {m : Mode} {r : Rect}

/-- The four passes over a rectangle are loops that end, each in one way. The bounds of the
loops are the edges of the rectangle, and a pass answers with what its loop ends in. -/
structure LoopsEnd (g : Grid) (c : Criterion) (m : Mode) (r : Rect) : Prop where
  bottom : ∃ x, (∀ y, Sweep.Loop (· < r.y1) (g.scanRow c m r) stepUp r.y0 y ↔ x = y) ∧
    g.trimBottom c m r = x.map fun s => ⟨.ofEdges r.x0 s.edge r.x1 r.y1, s.reserved⟩
  top : ∃ x, (∀ y, Sweep.Loop (r.y0 < ·) (fun e => stepDown e >>= g.scanRow c m r) stepDown r.y1 y
      ↔ x = y) ∧
    g.trimTop c m r = x.map fun s => ⟨.ofEdges r.x0 r.y0 r.x1 s.edge, s.reserved⟩
  left : ∃ x, (∀ y, Sweep.Loop (· < r.x1) (g.scanColumn c m r) stepUp r.x0 y ↔ x = y) ∧
    g.trimLeft c m r = x.map fun s => ⟨.ofEdges s.edge r.y0 r.x1 r.y1, s.reserved⟩
  right : ∃ x, (∀ y, Sweep.Loop (r.x0 < ·) (fun e => stepDown e >>= g.scanColumn c m r) stepDown
      r.x1 y ↔ x = y) ∧
    g.trimRight c m r = x.map fun s => ⟨.ofEdges r.x0 r.y0 s.edge r.y1, s.reserved⟩

/-- Every pass ends, also over a rectangle that is inverted or reaches outside the grid. -/
theorem loopsEnd (g : Grid) (c : Criterion) (m : Mode) (r : Rect) : g.LoopsEnd c m r where
  bottom := ⟨_, fun _ => Sweep.loop_up_iff, rfl⟩
  top := ⟨_, fun _ => Sweep.loop_down_iff, rfl⟩
  left := ⟨_, fun _ => Sweep.loop_up_iff, rfl⟩
  right := ⟨_, fun _ => Sweep.loop_down_iff, rfl⟩

end Grid

namespace CoverageMap

/-- **Every question about a reachable map is answered,** by passes that end. -/
theorem answered {m : CoverageMap} (hm : m.Reachable) (mode : Mode) (on : Bool) (roi : Rect) :
    (∃ t, (m.bordered on).uncoveredBox mode roi = .ok t) ∧
      (∃ w, (m.bordered on).workList mode roi = .ok w) ∧
      (∃ answer, (m.bordered on).decompose mode roi = .ok answer) ∧
      ∀ c r, m.grid.LoopsEnd c mode r := by
  obtain ⟨t, answer, h⟩ := exists_answers hm.sound mode roi
  exact ⟨⟨t, h.box⟩, ⟨_, h.list on⟩, ⟨answer, h.strips⟩, fun c r => m.grid.loopsEnd c mode r⟩

/-- One pixel in a corner of what 32 bits can hold, and all there is around it. -/
theorem answered_corner :
    ∃ m : CoverageMap, create ⟨2147483646, -2147483648, 2147483647, -2147483647⟩ {} = .ok m ∧
      m.Reachable ∧
      (∃ t, m.uncoveredBox .trimap ⟨-2147483648, -2147483648, 2147483647, 2147483647⟩ = .ok t ∧
        t.rect = m.bounds) ∧
      (∃ w, m.workList .trimap ⟨-2147483648, -2147483648, 2147483647, 2147483647⟩ = .ok w ∧
        w.rects.length = 3) ∧
      (∃ answer, m.decompose .trimap ⟨-2147483648, -2147483648, 2147483647, 2147483647⟩ =
        .ok answer ∧ answer.elim [] Decomposition.work = [m.bounds]) ∧
      ∀ c r, m.grid.LoopsEnd c .trimap r := by
  have hb : Rect.InRange ⟨2147483646, -2147483648, 2147483647, -2147483647⟩ := by decide
  have hcreate : create ⟨2147483646, -2147483648, 2147483647, -2147483647⟩ {} =
      .ok (blank _ {}) := rfl
  have hm := reachable_of_create hb hcreate
  obtain ⟨⟨t, et⟩, ⟨w, ew⟩, ⟨answer, ea⟩, hloops⟩ := answered hm .trimap true
    ⟨-2147483648, -2147483648, 2147483647, 2147483647⟩
  refine ⟨_, hcreate, hm, ⟨t, et, ?_⟩, ⟨w, ew, ?_⟩, ⟨answer, ea, ?_⟩, hloops⟩
  · cbv at et
    cases et
    rfl
  · cbv at ew
    cases ew
    rfl
  · cbv at ea
    cases ea
    rfl

end CoverageMap

end PixelCoverage
