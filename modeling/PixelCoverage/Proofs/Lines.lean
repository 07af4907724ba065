import PixelCoverage.Proofs.Bands
import PixelCoverage.Proofs.Pass

/-!
# The lines that a pass removes

A pass works from one side of a rectangle. Seen from there, the rectangle is a list of lines,
and the pass cuts the list in two. The lines in `gone` are removed, and each of them is
accepted; the others are left, and the first of these is not accepted. So the lines removed are
as many as there can be. The edge on that side moves by their number, and the other three stay
where they are.

The flag depends on the criterion. Under `covered` a reserved pixel in any line removed raises
it, and the line that stopped the pass has no say. Under `pending` it is the other way round:
only that line counts, and of that line only the first pixel that is not unrendered.

`Grid.Passed` says of a pass what the boxes and strips need, in terms of pixels. Which pixel of
a line comes first is lost there, so the lines are kept as lists here.
-/

namespace PixelCoverage

/-! ## What a line may hold -/

/-- The states that keep a line eligible. -/
def Criterion.Admits : Criterion → Mode → PixelState → Prop
  | .covered, .simple, s => s = .available
  | .covered, .trimap, s => s ≠ .unrendered
  | .pending, .simple, s => s ≠ .available
  | .pending, .trimap, s => s = .unrendered

theorem Criterion.accepts_iff_admits {c : Criterion} {m : Mode} {states : List PixelState} :
    c.Accepts m states ↔ ∀ s ∈ states, c.Admits m s := by
  cases c <;> cases m <;> simp [Accepts, Admits]

/-! ## The lines of a rectangle -/

namespace Rect

variable {r : Rect} {side : Side} {n i : Nat}

/-- The pixels of a row, from left to right. -/
def row (r : Rect) (y : Int) : List Pixel :=
  (List.range r.width).map fun (i : Nat) => ⟨r.x0 + i, y⟩

/-- The pixels of a column, from bottom to top. -/
def column (r : Rect) (x : Int) : List Pixel :=
  (List.range r.height).map fun (i : Nat) => ⟨x, r.y0 + i⟩

/-- How many lines there are from a side to the one opposite. -/
def depth (r : Rect) : Side → Nat
  | .left | .right => r.width
  | .bottom | .top => r.height

/-- The coordinate of the line that has so many others between it and a side. -/
def place (r : Rect) : Side → Nat → Int
  | .left, i => r.x0 + i
  | .bottom, i => r.y0 + i
  | .right, i => r.x1 - 1 - i
  | .top, i => r.y1 - 1 - i

/-- The line itself, in the order in which it is scanned. -/
def line (r : Rect) (side : Side) (i : Nat) : List Pixel :=
  match side with
  | .left | .right => r.column (r.place side i)
  | .bottom | .top => r.row (r.place side i)

/-- All lines, beginning at a side. -/
def lines (r : Rect) (side : Side) : List (List Pixel) :=
  (List.range (r.depth side)).map (r.line side)

/-- The edge on one side moved inwards over so many lines. -/
def inset (r : Rect) : Side → Nat → Rect
  | .left, n => { r with x0 := r.x0 + n }
  | .bottom, n => { r with y0 := r.y0 + n }
  | .right, n => { r with x1 := r.x1 - n }
  | .top, n => { r with y1 := r.y1 - n }

@[simp] theorem length_lines : (r.lines side).length = r.depth side := by
  rw [lines, List.length_map, List.length_range]

/-- What stands at a place of a list that counts up. -/
private theorem getElem?_map_range_eq_some_iff {α : Type} {f : Nat → α} {a : α} :
    ((List.range n).map f)[i]? = some a ↔ i < n ∧ a = f i := by
  rw [List.getElem?_eq_some_iff]
  simp [eq_comm]

theorem getElem?_lines_eq_some_iff {l : List Pixel} :
    (r.lines side)[i]? = some l ↔ i < r.depth side ∧ l = r.line side i :=
  getElem?_map_range_eq_some_iff

theorem getElem?_row_eq_some_iff {y : Int} {p : Pixel} :
    (r.row y)[i]? = some p ↔ i < r.width ∧ p = ⟨r.x0 + i, y⟩ :=
  getElem?_map_range_eq_some_iff

theorem getElem?_column_eq_some_iff {x : Int} {p : Pixel} :
    (r.column x)[i]? = some p ↔ i < r.height ∧ p = ⟨x, r.y0 + i⟩ :=
  getElem?_map_range_eq_some_iff

/-- A moved edge leaves the lines that it has not passed. -/
theorem depth_inset (hr : r.Normal) (hn : n ≤ r.depth side) :
    (r.inset side n).depth side = r.depth side - n := by
  obtain ⟨hx, hy⟩ := hr
  cases side <;> simp only [depth, inset, width, height] at hn ⊢ <;> omega

theorem line_inset (i : Nat) : (r.inset side n).line side i = r.line side (n + i) := by
  have hplace : (r.inset side n).place side i = r.place side (n + i) := by
    cases side <;> simp only [place, inset] <;> omega
  -- the lines that are left keep their pixels, so only their coordinates matter
  cases side with
  | left | right => exact congrArg r.column hplace
  | bottom | top => exact congrArg r.row hplace

theorem lines_inset (hr : r.Normal) (hn : n ≤ r.depth side) :
    (r.inset side n).lines side = (r.lines side).drop n := by
  refine List.ext_getElem? fun i => ?_
  rw [List.getElem?_drop]
  by_cases hi : i < r.depth side - n
  · have hl : (r.lines side)[n + i]? = some (r.line side (n + i)) :=
      getElem?_lines_eq_some_iff.mpr ⟨by omega, rfl⟩
    rw [hl, getElem?_lines_eq_some_iff, depth_inset hr hn, line_inset]
    exact ⟨hi, rfl⟩
  · rw [List.getElem?_eq_none (by rw [length_lines, depth_inset hr hn]; omega),
      List.getElem?_eq_none (by rw [length_lines]; omega)]

end Rect

namespace Grid

variable {g : Grid} {c : Criterion} {m : Mode} {r : Rect} {side : Side}
  {scan : Int → Except Fault LineScan} {y lo hi : Int} {l : List Pixel}
  {states : List PixelState} {gone left : List (List Pixel)} {f : Bool}

/-! ## The verdict on one line -/

/-- A line that the criterion accepts. -/
def Admits (g : Grid) (c : Criterion) (m : Mode) (l : List Pixel) : Prop :=
  ∀ p ∈ l, ∃ s, g.get? p = some s ∧ c.Admits m s

/-- The first pixel of a line that is not unrendered is reserved. -/
def ReservedFirst (g : Grid) (l : List Pixel) : Prop :=
  (l.map g.get?).find? (· ≠ some .unrendered) = some (some .reserved)

/-- A line that raises the flag when it is scanned. -/
def LineTells (g : Grid) : Criterion → Mode → List Pixel → Prop
  | _, .simple, _ => False
  | .covered, .trimap, l => g.Admits .covered .trimap l ∧ ∃ p ∈ l, g.get? p = some .reserved
  | .pending, .trimap, l => g.ReservedFirst l

/-- The states of a line, in the order of its pixels. -/
def Along (g : Grid) (l : List Pixel) (states : List PixelState) : Prop :=
  states.map some = l.map g.get?

theorem Along.mem_iff (h : g.Along l states) {s : PixelState} :
    s ∈ states ↔ ∃ p ∈ l, g.get? p = some s := by
  have hmem : some s ∈ states.map some ↔ some s ∈ l.map g.get? := by rw [h]
  simpa only [List.mem_map, Option.some.injEq, exists_eq_right] using hmem

/-- No pixel of a line is without a state. -/
theorem Along.exists_state (h : g.Along l states) {p : Pixel} (hp : p ∈ l) :
    ∃ s ∈ states, g.get? p = some s := by
  have hmem : g.get? p ∈ states.map some := h ▸ List.mem_map_of_mem hp
  obtain ⟨s, hs, heq⟩ := List.mem_map.mp hmem
  exact ⟨s, hs, heq.symm⟩

theorem Along.accepted_iff (h : g.Along l states) :
    (LineScan.run c m false states).accepted = true ↔ g.Admits c m l := by
  rw [LineScan.accepted_run_iff, Criterion.accepts_iff_admits]
  refine ⟨fun hall p hp => ?_, fun hall s hs => ?_⟩
  · obtain ⟨s, hs, hps⟩ := h.exists_state hp
    exact ⟨s, hps, hall s hs⟩
  · obtain ⟨p, hp, hps⟩ := h.mem_iff.mp hs
    obtain ⟨t, hpt, ht⟩ := hall p hp
    rw [hps] at hpt
    exact Option.some.inj hpt ▸ ht

/-- The first state of a line that is not unrendered, looked for among its pixels. -/
theorem Along.find?_iff (h : g.Along l states) :
    states.find? (fun s => s ≠ .unrendered) = some .reserved ↔ g.ReservedFirst l := by
  have hne : (fun s : Option PixelState => decide (s ≠ some .unrendered)) ∘ some =
      fun s => decide (s ≠ .unrendered) := by
    funext s
    simp
  rw [ReservedFirst, ← h, List.find?_map, hne, Option.map_eq_some_iff]
  simp

theorem Along.reserved_iff (h : g.Along l states) :
    (LineScan.run c m false states).reserved = true ↔ g.LineTells c m l := by
  cases c with
  | covered =>
    have hacc := h.accepted_iff (c := .covered) (m := m)
    rw [LineScan.accepted_run_iff] at hacc
    rw [LineScan.reserved_run_covered, or_iff_right Bool.false_ne_true, h.mem_iff]
    cases m with
    | simple =>
      -- a reserved pixel is work, so the line that has one is not accepted
      refine iff_of_false (fun hn => ?_) id
      obtain ⟨hall, hres⟩ := hn
      exact hall _ (h.mem_iff.mpr hres) (by simp)
    | trimap => exact and_congr_left' hacc
  | pending =>
    rw [LineScan.reserved_run_pending]
    cases m with
    | simple =>
      refine iff_of_false (fun hf => ?_) id
      have hn := List.find?_some hf
      simp at hn
    | trimap => exact h.find?_iff

/-- Accepted by `pending` in trimap mode is what has no pixel to be found. -/
theorem Admits.not_reservedFirst (h : g.Admits .pending .trimap l) : ¬ g.ReservedFirst l := by
  intro hf
  obtain ⟨p, hp, heq⟩ := List.mem_map.mp (List.mem_of_find?_eq_some hf)
  obtain ⟨s, hs, hadm⟩ := h p hp
  rw [heq] at hs
  cases hs
  cases hadm

/-! ## The verdict on a list of lines -/

/-- The flag of a pass that has removed the lines in `gone` and left the others. -/
def Tells (g : Grid) : Criterion → Mode → List (List Pixel) → List (List Pixel) → Prop
  | _, .simple, _, _ => False
  | .covered, .trimap, gone, _ => ∃ l ∈ gone, ∃ p ∈ l, g.get? p = some .reserved
  | .pending, .trimap, _, left => ∃ l, left.head? = some l ∧ g.ReservedFirst l

/-- A pass has removed the lines in `gone`, and the first line left has stopped it. -/
structure Stopped (g : Grid) (c : Criterion) (m : Mode) (gone left : List (List Pixel))
    (flag : Bool) : Prop where
  accepted : ∀ l ∈ gone, g.Admits c m l
  rejected : ∀ l, left.head? = some l → ¬ g.Admits c m l
  reserved : flag = true ↔ g.Tells c m gone left

/-- Of the lines that are scanned, either those removed or the one that stopped the pass can
raise the flag. -/
theorem exists_lineTells_iff (hacc : ∀ l ∈ gone, g.Admits c m l)
    (hrej : ∀ l, left.head? = some l → ¬ g.Admits c m l) :
    (∃ l, (l ∈ gone ∨ left.head? = some l) ∧ g.LineTells c m l) ↔ g.Tells c m gone left := by
  cases m with
  | simple => cases c <;> exact iff_of_false (fun ⟨_, _, h⟩ => h) id
  | trimap =>
    cases c with
    | covered =>
      -- a covered line tells only if it is accepted, and the first line left is not
      refine exists_congr fun l => ⟨fun h => ?_, fun h => ?_⟩
      · obtain ⟨hl, hadm, hres⟩ := h
        exact ⟨hl.resolve_right fun hhead => hrej l hhead hadm, hres⟩
      · exact ⟨Or.inl h.1, hacc l h.1, h.2⟩
    | pending =>
      -- a line removed is unrendered throughout, so there is nothing in it to come first
      refine exists_congr fun l => ⟨fun h => ?_, fun h => ⟨Or.inr h.1, h.2⟩⟩
      obtain ⟨hl, hfirst⟩ := h
      exact ⟨hl.resolve_left fun hgone => (hacc l hgone).not_reservedFirst hfirst, hfirst⟩

/-- At `y` a scan reads the line `l`. -/
def Scans (g : Grid) (c : Criterion) (m : Mode) (scan : Int → Except Fault LineScan) (y : Int)
    (l : List Pixel) : Prop :=
  ∃ states, scan y = .ok (LineScan.run c m false states) ∧ g.Along l states

theorem Scans.verdict (h : g.Scans c m scan y l) {k : LineScan} (hk : scan y = .ok k) :
    (k.accepted = true ↔ g.Admits c m l) ∧ (k.reserved = true ↔ g.LineTells c m l) := by
  obtain ⟨states, hscan, hal⟩ := h
  rw [hscan] at hk
  cases hk
  exact ⟨hal.accepted_iff, hal.reserved_iff⟩

/-- The lines that a pass scans: those it removes, and the first of the others. -/
theorem mem_take_or_head?_drop_iff {ls : List (List Pixel)} {n : Nat} :
    (l ∈ ls.take n ∨ (ls.drop n).head? = some l) ↔ ∃ i ≤ n, ls[i]? = some l := by
  rw [List.head?_drop, List.mem_take_iff_getElem]
  constructor
  · intro h
    rcases h with ⟨i, hi, rfl⟩ | h
    · exact ⟨i, by omega, List.getElem?_eq_getElem (by omega)⟩
    · exact ⟨n, Nat.le_refl n, h⟩
  · intro h
    obtain ⟨i, hi, hl⟩ := h
    rcases Nat.lt_or_eq_of_le hi with hlt | rfl
    · obtain ⟨hlen, heq⟩ := List.getElem?_eq_some_iff.mp hl
      exact Or.inl ⟨i, by omega, heq⟩
    · exact Or.inr hl

/-- Whether a flag was raised, asked of the coordinates that were scanned or of their lines. -/
theorem exists_reserved_iff {ls : List (List Pixel)} {place : Nat → Int} {n : Nat}
    {seen : Int → Prop} (hscans : ∀ i l, ls[i]? = some l → g.Scans c m scan (place i) l)
    (hseen : ∀ z, seen z ↔ ∃ i ≤ n, i < ls.length ∧ z = place i) :
    (∃ z k, seen z ∧ scan z = .ok k ∧ k.reserved = true) ↔
      ∃ l, (l ∈ ls.take n ∨ (ls.drop n).head? = some l) ∧ g.LineTells c m l := by
  constructor
  · intro h
    obtain ⟨z, k, hz, hk, hres⟩ := h
    obtain ⟨i, hi, hlen, rfl⟩ := (hseen z).mp hz
    have hl : ls[i]? = some ls[i] := List.getElem?_eq_getElem hlen
    have htells := ((hscans i _ hl).verdict hk).2.mp hres
    exact ⟨ls[i], mem_take_or_head?_drop_iff.mpr ⟨i, hi, hl⟩, htells⟩
  · intro h
    obtain ⟨l, hmem, htells⟩ := h
    obtain ⟨i, hi, hl⟩ := mem_take_or_head?_drop_iff.mp hmem
    obtain ⟨states, hk, hal⟩ := hscans i l hl
    have hz := (hseen (place i)).mpr ⟨i, hi, (List.getElem?_eq_some_iff.mp hl).1, rfl⟩
    exact ⟨place i, _, hz, hk, hal.reserved_iff.mpr htells⟩

/-- A sweep that has come to rest after `n` lines has cut the list of lines there. -/
theorem stopped_of_rests {ls : List (List Pixel)} (place : Nat → Int) {n : Nat} {s : Sweep}
    {behind last : Int → Prop} (h : s.Rests scan behind last) (hn : n ≤ ls.length)
    (hscans : ∀ i l, ls[i]? = some l → g.Scans c m scan (place i) l)
    (hbehind : ∀ z, behind z ↔ ∃ i < n, z = place i)
    (hlast : ∀ z, last z ↔ n < ls.length ∧ z = place n) :
    g.Stopped c m (ls.take n) (ls.drop n) s.reserved := by
  have hacc : ∀ l ∈ ls.take n, g.Admits c m l := by
    intro l hl
    obtain ⟨i, hi, rfl⟩ := List.mem_take_iff_getElem.mp hl
    obtain ⟨k, hk, hka⟩ := h.accepted (place i) ((hbehind _).mpr ⟨i, by omega, rfl⟩)
    exact ((hscans i _ (List.getElem?_eq_getElem _)).verdict hk).1.mp hka
  have hrej : ∀ l, (ls.drop n).head? = some l → ¬ g.Admits c m l := by
    intro l hl hadm
    rw [List.head?_drop] at hl
    have hlen := (List.getElem?_eq_some_iff.mp hl).1
    obtain ⟨k, hk, hka⟩ := h.rejected (place n) ((hlast _).mpr ⟨hlen, rfl⟩)
    rw [((hscans n l hl).verdict hk).1.mpr hadm] at hka
    cases hka
  have hseen : ∀ z, (behind z ∨ last z) ↔ ∃ i ≤ n, i < ls.length ∧ z = place i := by
    intro z
    rw [hbehind, hlast]
    constructor
    · intro hz
      rcases hz with ⟨i, hi, rfl⟩ | ⟨hlen, rfl⟩
      · exact ⟨i, by omega, by omega, rfl⟩
      · exact ⟨n, Nat.le_refl n, hlen, rfl⟩
    · intro hz
      obtain ⟨i, hi, hlen, rfl⟩ := hz
      rcases Nat.lt_or_eq_of_le hi with hlt | rfl
      · exact Or.inl ⟨i, hlt, rfl⟩
      · exact Or.inr ⟨hlen, rfl⟩
  refine ⟨hacc, hrej, ?_⟩
  rw [h.reserved, exists_reserved_iff hscans hseen, exists_lineTells_iff hacc hrej]

/-! ## The sweeps of a pass -/

section Sweeps

variable {ls : List (List Pixel)}

/-- A sweep that raises an edge from `lo` cuts the lines above it in two. -/
theorem up_stopped (hls : ls.length = (hi - lo).toNat) (hle : lo ≤ hi) (hmax : hi ≤ maxCoord)
    (hscans : ∀ (i : Nat) l, ls[i]? = some l → g.Scans c m scan (lo + i) l) :
    ∃ n f, Sweep.up scan (hi - lo).toNat lo = .ok ⟨lo + (n : Nat), f⟩ ∧ n ≤ ls.length ∧
      g.Stopped c m (ls.take n) (ls.drop n) f := by
  have hok : ∀ y, lo ≤ y → y < lo + (hi - lo).toNat → ∃ k, scan y = .ok k := by
    intro y hy hy'
    obtain ⟨states, hk, _⟩ := hscans (y - lo).toNat _ (List.getElem?_eq_getElem (by omega))
    rw [Int.toNat_of_nonneg (by omega), show lo + (y - lo) = y by omega] at hk
    exact ⟨_, hk⟩
  obtain ⟨⟨edge, f⟩, hs, h0, h1, hrest⟩ := Sweep.up_rests (hi - lo).toNat lo (by omega) hok
  simp only at h0 h1
  have hedge : edge = lo + ((edge - lo).toNat : Nat) := by omega
  refine ⟨(edge - lo).toNat, f, by rw [← hedge]; exact hs, by omega, ?_⟩
  refine stopped_of_rests (fun i => lo + i) hrest (by omega) hscans ?_ ?_
  · intro z
    simp only
    constructor
    · intro hz
      exact ⟨(z - lo).toNat, by omega, by omega⟩
    · rintro ⟨i, hi, rfl⟩
      omega
  · intro z
    simp only
    omega

/-- A sweep that lowers an edge from `hi` cuts the lines below it in two. -/
theorem down_stopped (hls : ls.length = (hi - lo).toNat) (hle : lo ≤ hi) (hmin : minCoord ≤ lo)
    (hscans : ∀ (i : Nat) l, ls[i]? = some l → g.Scans c m scan (hi - 1 - i) l) :
    ∃ n f, Sweep.down scan (hi - lo).toNat hi = .ok ⟨hi - (n : Nat), f⟩ ∧ n ≤ ls.length ∧
      g.Stopped c m (ls.take n) (ls.drop n) f := by
  have hok : ∀ y, hi - (hi - lo).toNat ≤ y → y < hi → ∃ k, scan y = .ok k := by
    intro y hy hy'
    obtain ⟨states, hk, _⟩ := hscans (hi - 1 - y).toNat _ (List.getElem?_eq_getElem (by omega))
    rw [Int.toNat_of_nonneg (by omega), show hi - 1 - (hi - 1 - y) = y by omega] at hk
    exact ⟨_, hk⟩
  obtain ⟨⟨edge, f⟩, hs, h0, h1, hrest⟩ := Sweep.down_rests (hi - lo).toNat hi (by omega) hok
  simp only at h0 h1
  have hedge : edge = hi - ((hi - edge).toNat : Nat) := by omega
  refine ⟨(hi - edge).toNat, f, by rw [← hedge]; exact hs, by omega, ?_⟩
  refine stopped_of_rests (fun i => hi - 1 - i) hrest (by omega) hscans ?_ ?_
  · intro z
    simp only
    constructor
    · intro hz
      exact ⟨(hi - 1 - z).toNat, by omega, by omega⟩
    · rintro ⟨i, hi, rfl⟩
      omega
  · intro z
    simp only
    omega

end Sweeps

/-! ## The four passes -/

theorem along_of_getElem? (hlen : states.length = l.length)
    (h : ∀ (i : Nat) p, l[i]? = some p → states[i]? = g.get? p) : g.Along l states := by
  refine List.ext_getElem? fun i => ?_
  rw [List.getElem?_map, List.getElem?_map]
  by_cases hi : i < l.length
  · have hs : states[i]? = some states[i] := List.getElem?_eq_getElem (by omega)
    rw [hs, List.getElem?_eq_getElem hi, Option.map_some, Option.map_some, ← hs,
      h i _ (List.getElem?_eq_getElem hi)]
  · rw [List.getElem?_eq_none (by omega), List.getElem?_eq_none (by omega)]
    rfl

theorem scanRow_scans (hg : g.Sized) (hr : r.Within g.bounds) (h0 : r.y0 ≤ y) (h1 : y < r.y1) :
    g.Scans c m (g.scanRow c m r) y (r.row y) := by
  obtain ⟨states, hstates, hlen, hval⟩ := row_of_hasRow hg (hasRow_of_within hr h0 h1)
  refine ⟨states, by rw [scanRow, hstates]; rfl, along_of_getElem? ?_ ?_⟩
  · rw [hlen, Rect.row, List.length_map, List.length_range, Rect.width]
  · intro i p hp
    obtain ⟨hi, rfl⟩ := Rect.getElem?_row_eq_some_iff.mp hp
    exact hval i hi

theorem scanColumn_scans (hg : g.Sized) (hr : r.Within g.bounds) {x : Int} (h0 : r.x0 ≤ x)
    (h1 : x < r.x1) : g.Scans c m (g.scanColumn c m r) x (r.column x) := by
  obtain ⟨states, hstates, hlen, hval⟩ := column_of_hasColumn hg (hasColumn_of_within hr h0 h1)
  refine ⟨states, by rw [scanColumn, hstates]; rfl, along_of_getElem? ?_ ?_⟩
  · rw [hlen, Rect.column, List.length_map, List.length_range, Rect.height]
  · intro i p hp
    obtain ⟨hi, rfl⟩ := Rect.getElem?_column_eq_some_iff.mp hp
    exact hval i hi

/-- Scans the line at a coordinate, for the passes from a side. -/
def scanLine (g : Grid) (c : Criterion) (m : Mode) (r : Rect) : Side → Int → Except Fault LineScan
  | .left | .right => g.scanColumn c m r
  | .bottom | .top => g.scanRow c m r

theorem scanLine_scans (hg : g.Sized) (hr : r.Within g.bounds) {i : Nat} (hi : i < r.depth side) :
    g.Scans c m (g.scanLine c m r side) (r.place side i) (r.line side i) := by
  have hx := hr.columns
  have hy := hr.rows
  have inside : ∀ {lo hi : Int}, lo ≤ hi → i < (hi - lo).natAbs →
      (lo ≤ lo + i ∧ lo + i < hi) ∧ lo ≤ hi - 1 - i ∧ hi - 1 - i < hi := by
    intro lo hi hle hlt
    omega
  cases side with
  | left => exact scanColumn_scans hg hr (inside hx hi).1.1 (inside hx hi).1.2
  | bottom => exact scanRow_scans hg hr (inside hy hi).1.1 (inside hy hi).1.2
  | right => exact scanColumn_scans hg hr (inside hx hi).2.1 (inside hx hi).2.2
  | top => exact scanRow_scans hg hr (inside hy hi).2.1 (inside hy hi).2.2

/-- The pass that moves the edge on one side. -/
def trim (g : Grid) (c : Criterion) (m : Mode) : Side → Rect → Except Fault Trimmed
  | .left => g.trimLeft c m
  | .bottom => g.trimBottom c m
  | .right => g.trimRight c m
  | .top => g.trimTop c m

/-- A pass moves its edge over the lines that it removes. -/
theorem trim_stopped (hg : g.Sized) (hb : g.bounds.InRange) (hr : r.Within g.bounds) (c : Criterion)
    (m : Mode) (side : Side) :
    ∃ n f, g.trim c m side r = .ok ⟨r.inset side n, f⟩ ∧ n ≤ r.depth side ∧
      g.Stopped c m ((r.lines side).take n) ((r.lines side).drop n) f := by
  have hx := hr.columns
  have hy := hr.rows
  have hwidth : r.width = (r.x1 - r.x0).toNat := by unfold Rect.width; omega
  have hheight : r.height = (r.y1 - r.y0).toNat := by unfold Rect.height; omega
  obtain ⟨⟨hleft, _⟩, ⟨hbottom, _⟩, ⟨_, hright⟩, ⟨_, htop⟩⟩ := hr.inRange hb
  have hlen : (r.lines side).length = r.depth side := Rect.length_lines
  have hscans : ∀ (i : Nat) l, (r.lines side)[i]? = some l →
      g.Scans c m (g.scanLine c m r side) (r.place side i) l := by
    intro i l hl
    obtain ⟨hi, rfl⟩ := Rect.getElem?_lines_eq_some_iff.mp hl
    exact scanLine_scans hg hr hi
  -- the moved edge does not pass the one opposite, so it is kept as it comes out of the sweep
  cases side with
  | left =>
    obtain ⟨n, f, hs, hn, hstop⟩ := up_stopped (hlen.trans hwidth) hx hright hscans
    rw [hlen, Rect.depth] at hn
    rw [scanLine] at hs
    refine ⟨n, f, ?_, hn, hstop⟩
    rw [trim, trimLeft, hs, Rect.inset, ← Rect.ofEdges_eq_of_le (by omega) hy]
    rfl
  | bottom =>
    obtain ⟨n, f, hs, hn, hstop⟩ := up_stopped (hlen.trans hheight) hy htop hscans
    rw [hlen, Rect.depth] at hn
    rw [scanLine] at hs
    refine ⟨n, f, ?_, hn, hstop⟩
    rw [trim, trimBottom, hs, Rect.inset, ← Rect.ofEdges_eq_of_le hx (by omega)]
    rfl
  | right =>
    obtain ⟨n, f, hs, hn, hstop⟩ := down_stopped (hlen.trans hwidth) hx hleft hscans
    rw [hlen, Rect.depth] at hn
    rw [scanLine] at hs
    refine ⟨n, f, ?_, hn, hstop⟩
    rw [trim, trimRight, hs, Rect.inset, ← Rect.ofEdges_eq_of_le (by omega) hy]
    rfl
  | top =>
    obtain ⟨n, f, hs, hn, hstop⟩ := down_stopped (hlen.trans hheight) hy hbottom hscans
    rw [hlen, Rect.depth] at hn
    rw [scanLine] at hs
    refine ⟨n, f, ?_, hn, hstop⟩
    rw [trim, trimTop, hs, Rect.inset, ← Rect.ofEdges_eq_of_le hx (by omega)]
    rfl

/-- **A pass removes the longest run of accepted lines,** whichever side it works from, and moves
no edge but one. -/
theorem trim_longest_run (hg : g.Sized) (hb : g.bounds.InRange) (hr : r.Within g.bounds)
    (c : Criterion) (m : Mode) (side : Side) :
    ∃ t gone, g.trim c m side r = .ok t ∧ t.rect = r.inset side gone.length ∧
      r.lines side = gone ++ t.rect.lines side ∧
      g.Stopped c m gone (t.rect.lines side) t.reserved := by
  obtain ⟨n, f, htrim, hn, hstop⟩ := trim_stopped hg hb hr c m side
  have hgone : ((r.lines side).take n).length = n := by
    rw [List.length_take, Rect.length_lines, Nat.min_eq_left hn]
  have hleft := Rect.lines_inset ⟨hr.columns, hr.rows⟩ hn
  refine ⟨⟨r.inset side n, f⟩, (r.lines side).take n, htrim, by rw [hgone], ?_, ?_⟩
  · rw [hleft, List.take_append_drop]
  · rw [hleft]
    exact hstop

/-- Nine pixels where the greatest columns meet the least rows. -/
def corner : Grid where
  bounds := ⟨2147483644, -2147483648, 2147483647, -2147483645⟩
  cells := #[.available, .available, .reserved,
    .unrendered, .reserved, .available,
    .unrendered, .unrendered, .unrendered]

/-- The same row stops the passes from below and from above. Both raise the flag, the one by what
it has removed, the other by where it came to rest. -/
theorem trim_longest_run_corner :
    corner.Sized ∧ corner.bounds.InRange ∧ corner.bounds.Within corner.bounds ∧
      (∃ t gone, corner.trim .covered .trimap .bottom corner.bounds = .ok t ∧
        t = ⟨⟨2147483644, -2147483647, 2147483647, -2147483645⟩, true⟩ ∧ gone.length = 1 ∧
        corner.bounds.lines .bottom = gone ++ t.rect.lines .bottom ∧
        corner.Stopped .covered .trimap gone (t.rect.lines .bottom) true) ∧
      ∃ t gone, corner.trim .pending .trimap .top corner.bounds = .ok t ∧
        t = ⟨⟨2147483644, -2147483648, 2147483647, -2147483646⟩, true⟩ ∧ gone.length = 1 ∧
        corner.bounds.lines .top = gone ++ t.rect.lines .top ∧
        corner.Stopped .pending .trimap gone (t.rect.lines .top) true := by
  have hg : corner.Sized := by decide
  have hb : corner.bounds.InRange := by decide
  have hr : corner.bounds.Within corner.bounds := by constructor <;> decide
  refine ⟨hg, hb, hr, ?_, ?_⟩
  · obtain ⟨t, gone, ht, hrect, hlines, hstop⟩ :=
      trim_longest_run hg hb hr .covered .trimap .bottom
    have he : corner.trim .covered .trimap .bottom corner.bounds =
        .ok ⟨⟨2147483644, -2147483647, 2147483647, -2147483645⟩, true⟩ := by cbv
    rw [he] at ht
    cases ht
    have hedge := congrArg Rect.y0 hrect
    simp only [Rect.inset, corner] at hedge
    exact ⟨_, gone, he, rfl, by omega, hlines, hstop⟩
  · obtain ⟨t, gone, ht, hrect, hlines, hstop⟩ := trim_longest_run hg hb hr .pending .trimap .top
    have he : corner.trim .pending .trimap .top corner.bounds =
        .ok ⟨⟨2147483644, -2147483648, 2147483647, -2147483646⟩, true⟩ := by cbv
    rw [he] at ht
    cases ht
    have hedge := congrArg Rect.y1 hrect
    simp only [Rect.inset, corner] at hedge
    exact ⟨_, gone, he, rfl, by omega, hlines, hstop⟩

end Grid

end PixelCoverage
