import PixelCoverage.Proofs.Box
import PixelCoverage.Trim

/-!
# What one pass does

A pass moves one edge of a rectangle over lines that its criterion accepts. What it does
to pixels is the same on all four sides, so it is said once, as `Grid.Passed`: no pixel
that stops the criterion is cut off, and if any line is left, the one at the moved edge
has a pixel that stops it.

Three layers lead there, one for each recursion in the pass:

* a **line** is accepted when none of its pixels stops it, and its flag depends on the
  criterion: a covered line raises it by any reserved pixel, a pending line only by the
  reserved pixel that ended it;
* a **sweep** accepts the lines it leaves behind, rejects the one where it comes to rest,
  and collects the flags of both;
* a **pass** reads its lines from the grid, which holds them as long as the rectangle
  lies between the edges of the bounds.
-/

namespace PixelCoverage

/-! ## Lines -/

/-- The states that end a line. -/
def Criterion.Stops : Criterion → Mode → PixelState → Prop
  | .covered, m, s => m.Needs s
  | .pending, m, s => ¬ m.Needs s

theorem Criterion.accepts_iff {c : Criterion} {m : Mode} {line : List PixelState} :
    c.Accepts m line ↔ ∀ s ∈ line, ¬ c.Stops m s := by
  cases c with
  | covered => exact Iff.rfl
  | pending => simp only [Accepts, Stops, Decidable.not_not]

/-- A covered line raises the flag when it is accepted and has a reserved pixel. -/
theorem LineScan.reserved_run_covered {m : Mode} {seen : Bool} {line : List PixelState} :
    (LineScan.run .covered m seen line).reserved = true ↔
      (∀ s ∈ line, ¬ m.Needs s) ∧ (seen = true ∨ .reserved ∈ line) := by
  induction line generalizing seen with
  | nil => simp [LineScan.run]
  | cons s line ih =>
    by_cases hs : m.Needs s
    · simp [LineScan.run, Criterion.judge, hs]
    · have hline : (∀ t ∈ s :: line, ¬ m.Needs t) ↔ ∀ t ∈ line, ¬ m.Needs t := by simp [hs]
      rw [hline, List.mem_cons, eq_comm (a := PixelState.reserved), ← or_assoc]
      simp only [LineScan.run, Criterion.judge, hs, if_false, ih, Bool.or_eq_true,
        decide_eq_true_eq]

/-- A pending line raises the flag when the first pixel that is no work is reserved. -/
theorem LineScan.reserved_run_pending {m : Mode} {line : List PixelState} :
    (LineScan.run .pending m false line).reserved = true ↔
      line.find? (fun s => ¬ m.Needs s) = some .reserved := by
  induction line with
  | nil => simp [LineScan.run]
  | cons s line ih =>
    by_cases hs : m.Needs s
    · simp [LineScan.run, Criterion.judge, hs, ih]
    · simp [LineScan.run, Criterion.judge, hs]

/-! ## Sweeps -/

/--
Where a sweep has come to rest: the lines in `gone` are behind it, and the one in `last`,
if there is one, has stopped it.
-/
structure Sweep.Rests (scan : Int → Except Fault LineScan) (gone last : Int → Prop)
    (s : Sweep) : Prop where
  accepted : ∀ y, gone y → ∃ l, scan y = .ok l ∧ l.accepted = true
  rejected : ∀ y, last y → ∃ l, scan y = .ok l ∧ l.accepted = false
  reserved : s.reserved = true ↔ ∃ y l, (gone y ∨ last y) ∧ scan y = .ok l ∧ l.reserved = true

variable {scan : Int → Except Fault LineScan} {gone last gone' last' : Int → Prop} {s : Sweep}
  {l : LineScan} {y : Int}

/-- A sweep over no lines. -/
theorem Sweep.rests_nil (edge : Int) (hg : ∀ z, ¬ gone z) (hl : ∀ z, ¬ last z) :
    Sweep.Rests scan gone last ⟨edge, false⟩ where
  accepted z hz := absurd hz (hg z)
  rejected z hz := absurd hz (hl z)
  reserved := by
    refine iff_of_false Bool.false_ne_true fun ⟨z, _, hz, _⟩ => ?_
    rcases hz with hz | hz
    · exact hg z hz
    · exact hl z hz

/-- A sweep that is stopped by its first line. -/
theorem Sweep.rests_of_rejected (edge : Int) (hscan : scan y = .ok l) (ha : ¬ l.accepted = true)
    (hg : ∀ z, ¬ gone z) (hl : ∀ z, last z ↔ z = y) :
    Sweep.Rests scan gone last ⟨edge, l.reserved⟩ where
  accepted z hz := absurd hz (hg z)
  rejected z hz := ⟨l, (hl z).mp hz ▸ hscan, Bool.eq_false_iff.mpr ha⟩
  reserved := by
    refine ⟨fun h => ⟨y, l, Or.inr ((hl y).mpr rfl), hscan, h⟩, fun ⟨z, k, hz, hk, hr⟩ => ?_⟩
    have heq := (hl z).mp (hz.resolve_left (hg z))
    rw [heq, hscan] at hk
    exact Except.ok.inj hk ▸ hr

/-- A sweep that goes on over its first line. -/
theorem Sweep.Rests.cons (h : s.Rests scan gone last) (hscan : scan y = .ok l)
    (ha : l.accepted = true) (hg : ∀ z, gone' z ↔ z = y ∨ gone z)
    (hl : ∀ z, last' z ↔ last z) :
    Sweep.Rests scan gone' last' ⟨s.edge, l.reserved || s.reserved⟩ where
  accepted z hz := by
    rcases (hg z).mp hz with heq | hz
    · exact ⟨l, heq ▸ hscan, ha⟩
    · exact h.accepted z hz
  rejected z hz := h.rejected z ((hl z).mp hz)
  reserved := by
    rw [Bool.or_eq_true, h.reserved]
    refine ⟨?_, ?_⟩
    · intro hf
      rcases hf with hf | ⟨z, k, hz, hk, hr⟩
      · exact ⟨y, l, Or.inl ((hg y).mpr (Or.inl rfl)), hscan, hf⟩
      · exact ⟨z, k, hz.imp (fun hz => (hg z).mpr (Or.inr hz)) (hl z).mpr, hk, hr⟩
    · intro hf
      obtain ⟨z, k, hz, hk, hr⟩ := hf
      rw [hg z, hl z, or_assoc] at hz
      rcases hz with heq | hz
      · rw [heq, hscan] at hk
        exact Or.inl (Except.ok.inj hk ▸ hr)
      · exact Or.inr ⟨z, k, hz, hk, hr⟩

theorem Sweep.up_rests (n : Nat) (lo : Int) (hmax : lo + n ≤ maxCoord)
    (hscan : ∀ y, lo ≤ y → y < lo + n → ∃ l, scan y = .ok l) :
    ∃ s, Sweep.up scan n lo = .ok s ∧ lo ≤ s.edge ∧ s.edge ≤ lo + n ∧
      s.Rests scan (fun y => lo ≤ y ∧ y < s.edge) (fun y => y = s.edge ∧ y < lo + n) := by
  induction n generalizing lo with
  | zero =>
    refine ⟨⟨lo, false⟩, rfl, by simp, by simp, Sweep.rests_nil lo ?_ ?_⟩
    · intro z; simp only; omega
    · intro z; simp only; omega
  | succ n ih =>
    obtain ⟨l, hl⟩ := hscan lo (by omega) (by omega)
    by_cases ha : l.accepted = true
    · have hstep : stepUp lo = .ok (lo + 1) := stepUp_eq_ok_iff.mpr ⟨by omega, rfl⟩
      obtain ⟨s, hs, h1, h2, h3⟩ := ih (lo + 1) (by omega)
        (fun y hy hy' => hscan y (by omega) (by omega))
      refine ⟨⟨s.edge, l.reserved || s.reserved⟩, ?_, by simp only; omega, by simp only; omega,
        h3.cons hl ha ?_ ?_⟩
      · simp only [Sweep.up, hl, bind, Except.bind, ha, if_true, hstep, hs]
        rfl
      · intro z; simp only; omega
      · intro z; simp only; omega
    · refine ⟨⟨lo, l.reserved⟩, ?_, by simp, by simp only; omega,
        Sweep.rests_of_rejected lo hl ha ?_ ?_⟩
      · simp only [Sweep.up, hl, bind, Except.bind, ha]
        rfl
      · intro z; simp only; omega
      · intro z; simp only; omega

theorem Sweep.down_rests (n : Nat) (hi : Int) (hmin : minCoord ≤ hi - n)
    (hscan : ∀ y, hi - n ≤ y → y < hi → ∃ l, scan y = .ok l) :
    ∃ s, Sweep.down scan n hi = .ok s ∧ hi - n ≤ s.edge ∧ s.edge ≤ hi ∧
      s.Rests scan (fun y => s.edge ≤ y ∧ y < hi) (fun y => y = s.edge - 1 ∧ hi - n ≤ y) := by
  induction n generalizing hi with
  | zero =>
    refine ⟨⟨hi, false⟩, rfl, by simp, by simp, Sweep.rests_nil hi ?_ ?_⟩
    · intro z; simp only; omega
    · intro z; simp only; omega
  | succ n ih =>
    obtain ⟨l, hl⟩ := hscan (hi - 1) (by omega) (by omega)
    have hstep : stepDown hi = .ok (hi - 1) := stepDown_eq_ok_iff.mpr ⟨by omega, rfl⟩
    by_cases ha : l.accepted = true
    · obtain ⟨s, hs, h1, h2, h3⟩ := ih (hi - 1) (by omega)
        (fun y hy hy' => hscan y (by omega) (by omega))
      refine ⟨⟨s.edge, l.reserved || s.reserved⟩, ?_, by simp only; omega, by simp only; omega,
        h3.cons hl ha ?_ ?_⟩
      · simp only [Sweep.down, hl, bind, Except.bind, ha, if_true, hstep, hs]
        rfl
      · intro z; simp only; omega
      · intro z; simp only; omega
    · refine ⟨⟨hi, l.reserved⟩, ?_, by simp only; omega, by simp,
        Sweep.rests_of_rejected hi hl ha ?_ ?_⟩
      · simp only [Sweep.down, hl, bind, Except.bind, ha, hstep]
        rfl
      · intro z; simp only; omega
      · intro z; simp only; omega

/-! ## Passes -/

namespace Grid

variable {g : Grid} {c : Criterion} {m : Mode} {r : Rect}

/-- A pixel of the grid that ends the lines it is on. -/
def Stops (g : Grid) (c : Criterion) (m : Mode) (p : Pixel) : Prop :=
  ∃ s, g.get? p = some s ∧ c.Stops m s

/-- At `y` a scan reads the pixels of `r` whose row or column, `coord`, is `y`. -/
def Reads (g : Grid) (c : Criterion) (m : Mode) (r : Rect) (coord : Pixel → Int)
    (scan : Int → Except Fault LineScan) (y : Int) : Prop :=
  ∃ line, scan y = .ok (LineScan.run c m false line) ∧
    ∀ s, s ∈ line ↔ ∃ p ∈ r, coord p = y ∧ g.get? p = some s

theorem scanRow_reads (hg : g.Sized) (hr : r.Within g.bounds) {y : Int} (h0 : r.y0 ≤ y)
    (h1 : y < r.y1) : g.Reads c m r Pixel.y (g.scanRow c m r) y := by
  obtain ⟨line, hline, hlen, hval⟩ := row_of_hasRow hg (hasRow_of_within hr h0 h1)
  have hcols := hr.columns
  refine ⟨line, by rw [scanRow, hline]; rfl, fun s => ?_⟩
  rw [List.mem_iff_getElem?]
  refine ⟨?_, ?_⟩
  · intro h
    obtain ⟨i, hi⟩ := h
    have hlt := (List.getElem?_eq_some_iff.mp hi).1
    rw [hval i (by omega)] at hi
    exact ⟨⟨r.x0 + i, y⟩, by rw [Rect.mem_iff]; simp only; omega, rfl, hi⟩
  · intro h
    obtain ⟨⟨x, z⟩, hp, hz, hs⟩ := h
    rw [Rect.mem_iff] at hp
    simp only at hp hz
    refine ⟨(x - r.x0).toNat, ?_⟩
    rw [hval _ (by omega), Int.toNat_of_nonneg (by omega), show r.x0 + (x - r.x0) = x by omega,
      ← hz]
    exact hs

theorem scanColumn_reads (hg : g.Sized) (hr : r.Within g.bounds) {x : Int} (h0 : r.x0 ≤ x)
    (h1 : x < r.x1) : g.Reads c m r Pixel.x (g.scanColumn c m r) x := by
  obtain ⟨line, hline, hlen, hval⟩ := column_of_hasColumn hg (hasColumn_of_within hr h0 h1)
  have hrows := hr.rows
  refine ⟨line, by rw [scanColumn, hline]; rfl, fun s => ?_⟩
  rw [List.mem_iff_getElem?]
  refine ⟨?_, ?_⟩
  · intro h
    obtain ⟨i, hi⟩ := h
    have hlt := (List.getElem?_eq_some_iff.mp hi).1
    rw [hval i (by omega)] at hi
    exact ⟨⟨x, r.y0 + i⟩, by rw [Rect.mem_iff]; simp only; omega, rfl, hi⟩
  · intro h
    obtain ⟨⟨z, y⟩, hp, hz, hs⟩ := h
    rw [Rect.mem_iff] at hp
    simp only at hp hz
    refine ⟨(y - r.y0).toNat, ?_⟩
    rw [hval _ (by omega), Int.toNat_of_nonneg (by omega), show r.y0 + (y - r.y0) = y by omega,
      ← hz]
    exact hs

/--
A pass has taken `r` to `t`. The line next to the moved edge has the coordinate `y`, and
there is one as long as `left` holds.
-/
structure Passed (g : Grid) (c : Criterion) (m : Mode) (r : Rect) (t : Trimmed)
    (coord : Pixel → Int) (y : Int) (left : Prop) : Prop where
  within : t.rect.Within r
  /-- No pixel that stops the pass is cut off. -/
  cut : ∀ p ∈ r, p ∉ t.rect → ¬ g.Stops c m p
  /-- The line at the edge has stopped it. -/
  rests : left → ∃ p ∈ t.rect, coord p = y ∧ g.Stops c m p
  /-- Cutting covered lines off tells of every reserved pixel in them, and of no other. -/
  covered : c = .covered →
    (t.reserved = true ↔ ∃ p ∈ r, p ∉ t.rect ∧ g.get? p = some .reserved)
  /-- A strip tells of no reserved pixel that is not left to its holder. -/
  pending : c = .pending → t.reserved = true →
    ∃ p ∈ t.rect, g.get? p = some .reserved ∧ ¬ m.Needs .reserved

/-- What a sweep leaves behind is what its pass cuts off. -/
theorem passed_of_rests {t : Rect} {s : Sweep} {scan : Int → Except Fault LineScan}
    {coord : Pixel → Int} {gone last : Int → Prop} {y : Int} {left : Prop}
    (h : s.Rests scan gone last) (hreads : ∀ z, gone z ∨ last z → g.Reads c m r coord scan z)
    (hw : t.Within r) (hgone : ∀ p ∈ r, p ∉ t ↔ gone (coord p))
    (hlast : ∀ z, last z ↔ z = y ∧ left) :
    g.Passed c m r ⟨t, s.reserved⟩ coord y left := by
  -- the verdict of the sweep on a line, in terms of the line's pixels
  have hacc : ∀ z, gone z → ∀ p ∈ r, coord p = z → ¬ g.Stops c m p := by
    intro z hz p hp hpz hs
    obtain ⟨k, hk, hstop⟩ := hs
    obtain ⟨line, hline, hmem⟩ := hreads z (Or.inl hz)
    obtain ⟨l, hl, hla⟩ := h.accepted z hz
    rw [hline] at hl
    rw [← Except.ok.inj hl, LineScan.accepted_run_iff, Criterion.accepts_iff] at hla
    exact hla k ((hmem k).mpr ⟨p, hp, hpz, hk⟩) hstop
  have hrej : ∀ z, last z → ∃ p ∈ r, coord p = z ∧ g.Stops c m p := by
    intro z hz
    obtain ⟨line, hline, hmem⟩ := hreads z (Or.inr hz)
    obtain ⟨l, hl, hla⟩ := h.rejected z hz
    rw [hline] at hl
    have hna : ¬ c.Accepts m line := by
      rw [← @LineScan.accepted_run_iff c m false, Except.ok.inj hl, hla]
      exact Bool.false_ne_true
    rw [Criterion.accepts_iff] at hna
    simp only [Classical.not_forall, Classical.not_not] at hna
    obtain ⟨k, hk, hstop⟩ := hna
    obtain ⟨p, hp, hpz, hpk⟩ := (hmem k).mp hk
    exact ⟨p, hp, hpz, k, hpk, hstop⟩
  -- so no line is both behind the sweep and at its edge
  have hkeep : ∀ z, last z → ∀ p ∈ r, coord p = z → p ∈ t := by
    intro z hz p hp hpz
    rcases Classical.em (p ∈ t) with hin | hout
    · exact hin
    · obtain ⟨q, hq, hqz, hstop⟩ := hrej z hz
      exact absurd hstop (hacc z (hpz ▸ (hgone p hp).mp hout) q hq hqz)
  refine ⟨hw, ?_, ?_, ?_, ?_⟩
  · intro p hp hout
    exact hacc _ ((hgone p hp).mp hout) p hp rfl
  · intro hleft
    have hy := (hlast y).mpr ⟨rfl, hleft⟩
    obtain ⟨p, hp, hpy, hstop⟩ := hrej y hy
    exact ⟨p, hkeep y hy p hp hpy, hpy, hstop⟩
  · intro hc
    subst hc
    rw [h.reserved]
    refine ⟨?_, ?_⟩
    · intro hf
      obtain ⟨z, l, hz, hl, hf⟩ := hf
      obtain ⟨line, hline, hmem⟩ := hreads z hz
      rw [hline] at hl
      rw [← Except.ok.inj hl, LineScan.reserved_run_covered] at hf
      obtain ⟨hacc', hres⟩ := hf
      obtain ⟨p, hp, hpz, hpk⟩ := (hmem _).mp (hres.resolve_left (by simp))
      refine ⟨p, hp, ?_, hpk⟩
      rcases hz with hz | hz
      · exact (hgone p hp).mpr (hpz ▸ hz)
      · obtain ⟨q, hq, hqz, k, hk, hstop⟩ := hrej z hz
        exact absurd hstop (hacc' k ((hmem k).mpr ⟨q, hq, hqz, hk⟩))
    · intro hf
      obtain ⟨p, hp, hout, hpk⟩ := hf
      have hz := (hgone p hp).mp hout
      obtain ⟨line, hline, hmem⟩ := hreads _ (Or.inl hz)
      refine ⟨coord p, _, Or.inl hz, hline, LineScan.reserved_run_covered.mpr ⟨?_, ?_⟩⟩
      · intro k hk hn
        obtain ⟨q, hq, hqz, hqk⟩ := (hmem k).mp hk
        exact hacc _ hz q hq hqz ⟨k, hqk, hn⟩
      · exact Or.inr ((hmem _).mpr ⟨p, hp, rfl, hpk⟩)
  · intro hc hf
    subst hc
    obtain ⟨z, l, hz, hl, hf⟩ := h.reserved.mp hf
    obtain ⟨line, hline, hmem⟩ := hreads z hz
    rw [hline] at hl
    rw [← Except.ok.inj hl, LineScan.reserved_run_pending] at hf
    have hn : ¬ m.Needs .reserved := by simpa using List.find?_some hf
    obtain ⟨p, hp, hpz, hpk⟩ := (hmem _).mp (List.mem_of_find?_eq_some hf)
    refine ⟨p, ?_, hpk, hn⟩
    rcases hz with hz | hz
    · exact absurd ⟨_, hpk, hn⟩ (hacc z hz p hp hpz)
    · exact hkeep z hz p hp hpz

/-! ## The four sides -/

section Sides

variable {scan : Int → Except Fault LineScan} {coord : Pixel → Int} {lo hi : Int}

/-- A pass that raises an edge from `lo`. With the edge at `e` it leaves `t e`. -/
theorem passed_up (t : Int → Rect) (hle : lo ≤ hi) (hmax : hi ≤ maxCoord)
    (hreads : ∀ z, lo ≤ z → z < hi → g.Reads c m r coord scan z)
    (hw : ∀ e, lo ≤ e → e ≤ hi → (t e).Within r)
    (hcut : ∀ e, lo ≤ e → e ≤ hi → ∀ p ∈ r, p ∉ t e ↔ lo ≤ coord p ∧ coord p < e) :
    ∃ s, Sweep.up scan (hi - lo).toNat lo = .ok s ∧ lo ≤ s.edge ∧ s.edge ≤ hi ∧
      g.Passed c m r ⟨t s.edge, s.reserved⟩ coord s.edge (s.edge < hi) := by
  have hn : lo + (hi - lo).toNat = hi := by omega
  obtain ⟨s, hs, h0, h1, hrest⟩ := Sweep.up_rests (hi - lo).toNat lo (by omega)
    (fun z hz hz' => (hreads z hz (by omega)).imp' _ fun _ h => h.1)
  rw [hn] at h1
  refine ⟨s, hs, h0, h1, passed_of_rests hrest ?_ (hw _ h0 h1) (hcut _ h0 h1) ?_⟩
  · intro z hz
    exact hreads z (by omega) (by omega)
  · intro z
    omega

/-- A pass that lowers an edge from `hi`. -/
theorem passed_down (t : Int → Rect) (hle : lo ≤ hi) (hmin : minCoord ≤ lo)
    (hreads : ∀ z, lo ≤ z → z < hi → g.Reads c m r coord scan z)
    (hw : ∀ e, lo ≤ e → e ≤ hi → (t e).Within r)
    (hcut : ∀ e, lo ≤ e → e ≤ hi → ∀ p ∈ r, p ∉ t e ↔ e ≤ coord p ∧ coord p < hi) :
    ∃ s, Sweep.down scan (hi - lo).toNat hi = .ok s ∧ lo ≤ s.edge ∧ s.edge ≤ hi ∧
      g.Passed c m r ⟨t s.edge, s.reserved⟩ coord (s.edge - 1) (lo < s.edge) := by
  have hn : hi - (hi - lo).toNat = lo := by omega
  obtain ⟨s, hs, h0, h1, hrest⟩ := Sweep.down_rests (hi - lo).toNat hi (by omega)
    (fun z hz hz' => (hreads z (by omega) hz').imp' _ fun _ h => h.1)
  rw [hn] at h0
  refine ⟨s, hs, h0, h1, passed_of_rests hrest ?_ (hw _ h0 h1) (hcut _ h0 h1) ?_⟩
  · intro z hz
    exact hreads z (by omega) (by omega)
  · intro z
    omega

end Sides

theorem trimBottom_passed (c : Criterion) (m : Mode) (hg : g.Sized) (hb : g.bounds.InRange)
    (hr : r.Within g.bounds) :
    ∃ e f, g.trimBottom c m r = .ok ⟨⟨r.x0, e, r.x1, r.y1⟩, f⟩ ∧
      g.Passed c m r ⟨⟨r.x0, e, r.x1, r.y1⟩, f⟩ Pixel.y e (e < r.y1) := by
  have hmax := Int.le_trans hr.top hb.2.2.2.2
  obtain ⟨s, hs, _, h1, hp⟩ := passed_up (fun e => ⟨r.x0, e, r.x1, r.y1⟩) hr.rows hmax
    (fun _ h0 h1 => scanRow_reads hg hr h0 h1)
    (fun e h0 h1 => ⟨Int.le_refl _, hr.columns, Int.le_refl _, h0, h1, Int.le_refl _⟩)
    (fun e h0 h1 p hp => by simp only [Rect.mem_iff] at hp ⊢; omega)
  refine ⟨s.edge, s.reserved, ?_, hp⟩
  rw [trimBottom, hs, ← Rect.ofEdges_eq_of_le hr.columns h1]
  rfl

theorem trimTop_passed (c : Criterion) (m : Mode) (hg : g.Sized) (hb : g.bounds.InRange)
    (hr : r.Within g.bounds) :
    ∃ e f, g.trimTop c m r = .ok ⟨⟨r.x0, r.y0, r.x1, e⟩, f⟩ ∧
      g.Passed c m r ⟨⟨r.x0, r.y0, r.x1, e⟩, f⟩ Pixel.y (e - 1) (r.y0 < e) := by
  have hmin := Int.le_trans hb.2.1.1 hr.bottom
  obtain ⟨s, hs, h0, _, hp⟩ := passed_down (fun e => ⟨r.x0, r.y0, r.x1, e⟩) hr.rows hmin
    (fun _ h0 h1 => scanRow_reads hg hr h0 h1)
    (fun e h0 h1 => ⟨Int.le_refl _, hr.columns, Int.le_refl _, Int.le_refl _, h0, h1⟩)
    (fun e h0 h1 p hp => by simp only [Rect.mem_iff] at hp ⊢; omega)
  refine ⟨s.edge, s.reserved, ?_, hp⟩
  rw [trimTop, hs, ← Rect.ofEdges_eq_of_le hr.columns h0]
  rfl

theorem trimLeft_passed (c : Criterion) (m : Mode) (hg : g.Sized) (hb : g.bounds.InRange)
    (hr : r.Within g.bounds) :
    ∃ e f, g.trimLeft c m r = .ok ⟨⟨e, r.y0, r.x1, r.y1⟩, f⟩ ∧
      g.Passed c m r ⟨⟨e, r.y0, r.x1, r.y1⟩, f⟩ Pixel.x e (e < r.x1) := by
  have hmax := Int.le_trans hr.right hb.2.2.1.2
  obtain ⟨s, hs, _, h1, hp⟩ := passed_up (fun e => ⟨e, r.y0, r.x1, r.y1⟩) hr.columns hmax
    (fun _ h0 h1 => scanColumn_reads hg hr h0 h1)
    (fun e h0 h1 => ⟨h0, h1, Int.le_refl _, Int.le_refl _, hr.rows, Int.le_refl _⟩)
    (fun e h0 h1 p hp => by simp only [Rect.mem_iff] at hp ⊢; omega)
  refine ⟨s.edge, s.reserved, ?_, hp⟩
  rw [trimLeft, hs, ← Rect.ofEdges_eq_of_le h1 hr.rows]
  rfl

theorem trimRight_passed (c : Criterion) (m : Mode) (hg : g.Sized) (hb : g.bounds.InRange)
    (hr : r.Within g.bounds) :
    ∃ e f, g.trimRight c m r = .ok ⟨⟨r.x0, r.y0, e, r.y1⟩, f⟩ ∧
      g.Passed c m r ⟨⟨r.x0, r.y0, e, r.y1⟩, f⟩ Pixel.x (e - 1) (r.x0 < e) := by
  have hmin := Int.le_trans hb.1.1 hr.left
  obtain ⟨s, hs, h0, _, hp⟩ := passed_down (fun e => ⟨r.x0, r.y0, e, r.y1⟩) hr.columns hmin
    (fun _ h0 h1 => scanColumn_reads hg hr h0 h1)
    (fun e h0 h1 => ⟨Int.le_refl _, h0, h1, Int.le_refl _, hr.rows, Int.le_refl _⟩)
    (fun e h0 h1 p hp => by simp only [Rect.mem_iff] at hp ⊢; omega)
  refine ⟨s.edge, s.reserved, ?_, hp⟩
  rw [trimRight, hs, ← Rect.ofEdges_eq_of_le h0 hr.rows]
  rfl

/-! ## Four passes leave a box -/

/-- If the rows are used up, no pixel has stopped the first two passes. -/
theorem isBox_of_rows {s t : Rect} {f₁ f₂ : Bool} {y z : Int} {left left' : Prop}
    (hb : g.Passed c m r ⟨s, f₁⟩ Pixel.y y left) (ht : g.Passed c m s ⟨t, f₂⟩ Pixel.y z left')
    (he : t.IsEmpty) : t.IsBox (fun p => p ∈ r ∧ g.Stops c m p) := by
  refine Rect.isBox_of_isEmpty he fun p hp => ?_
  have hnt : p ∉ t := Rect.isEmpty_iff_forall_not_mem.mp he p
  rcases Classical.em (p ∈ s) with hps | hps
  · exact ht.cut p hps hnt hp.2
  · exact hb.cut p hp.1 hps hp.2

/--
**Greedy passes lose nothing.** Whatever stops a pass is kept by the passes after it, so
the line that stopped the bottom pass still has its pixel when the columns are gone.
-/
theorem isBox_of_passes {x0 y0 x1 y1 : Int} {f₁ f₂ f₃ f₄ : Bool}
    (hb : g.Passed c m r ⟨⟨r.x0, y0, r.x1, r.y1⟩, f₁⟩ Pixel.y y0 (y0 < r.y1))
    (ht : g.Passed c m ⟨r.x0, y0, r.x1, r.y1⟩ ⟨⟨r.x0, y0, r.x1, y1⟩, f₂⟩ Pixel.y (y1 - 1)
      (y0 < y1))
    (hl : g.Passed c m ⟨r.x0, y0, r.x1, y1⟩ ⟨⟨x0, y0, r.x1, y1⟩, f₃⟩ Pixel.x x0 (x0 < r.x1))
    (hr : g.Passed c m ⟨x0, y0, r.x1, y1⟩ ⟨⟨x0, y0, x1, y1⟩, f₄⟩ Pixel.x (x1 - 1) (x0 < x1)) :
    Rect.IsBox ⟨x0, y0, x1, y1⟩ (fun p => p ∈ r ∧ g.Stops c m p) := by
  have keep : ∀ {s : Rect} {t : Trimmed} {coord : Pixel → Int} {y : Int} {left : Prop},
      g.Passed c m s t coord y left → ∀ p ∈ s, g.Stops c m p → p ∈ t.rect := by
    intro s t coord y left h p hp hstop
    rcases Classical.em (p ∈ t.rect) with hin | hout
    · exact hin
    · exact absurd hstop (h.cut p hp hout)
  refine ⟨fun p hp => keep hr p (keep hl p (keep ht p (keep hb p hp.1 hp.2) hp.2) hp.2) hp.2, ?_⟩
  intro s hs
  rcases Classical.em (Rect.IsEmpty ⟨x0, y0, x1, y1⟩) with he | he
  · exact Or.inl he
  · -- each edge of the box is that of a pixel in it
    have wt := ht.within.top
    have wr := hr.within.right
    simp only [Rect.isEmpty_iff] at he wt wr
    obtain ⟨p₁, h₁, e₁, k₁⟩ := hb.rests (by omega)
    obtain ⟨p₂, h₂, e₂, k₂⟩ := ht.rests (by omega)
    obtain ⟨p₃, h₃, e₃, k₃⟩ := hl.rests (by omega)
    obtain ⟨p₄, h₄, e₄, k₄⟩ := hr.rests (by omega)
    have hin : ∀ p, p ∈ (⟨r.x0, y0, r.x1, r.y1⟩ : Rect) → g.Stops c m p → p ∈ s :=
      fun p hp k => hs p ⟨hb.within.mem hp, k⟩
    have s₁ := hin p₁ h₁ k₁
    have s₂ := hin p₂ (ht.within.mem h₂) k₂
    have s₃ := hin p₃ (ht.within.mem (hl.within.mem h₃)) k₃
    have s₄ := hin p₄ (ht.within.mem (hl.within.mem (hr.within.mem h₄))) k₄
    rw [Rect.mem_iff] at s₁ s₂ s₃ s₄
    rw [Rect.subset_def]
    right
    simp only
    omega

end Grid

end PixelCoverage
