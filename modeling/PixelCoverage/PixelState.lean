/-!
# The state of a pixel, and when it needs work

A pixel starts unrendered and ends available. In between a worker may reserve it. Whether
a reserved pixel still needs work depends on who asks: `Mode.simple` knows no other worker
and counts it as undone, `Mode.trimap` leaves it to its holder.
-/

namespace PixelCoverage

/-- What is known of one pixel. -/
inductive PixelState where
  | unrendered
  | available
  | reserved
deriving DecidableEq, Repr, Inhabited

namespace PixelState

/-- The byte that stands for a state in a stored buffer. -/
def toByte : PixelState → Nat
  | unrendered => 0
  | available => 1
  | reserved => 2

/-- Reads a stored byte; most bytes are no state. -/
def ofByte? : Nat → Option PixelState
  | 0 => some unrendered
  | 1 => some available
  | 2 => some reserved
  | _ => none

def name : PixelState → String
  | unrendered => "Unrendered"
  | available => "Available"
  | reserved => "Reserved"

/-- A byte is read as the state that is written as that byte. -/
theorem ofByte?_eq_some_iff {b : Nat} {s : PixelState} : ofByte? b = some s ↔ b = s.toByte := by
  cases s <;> simp only [toByte, ofByte?] <;> split <;> simp_all

end PixelState

/-- How a query counts reserved pixels. -/
inductive Mode where
  | simple
  | trimap
deriving DecidableEq, Repr, Inhabited

namespace Mode

def name : Mode → String
  | simple => "Simple"
  | trimap => "Trimap"

/-- A pixel in this state is work for the one who asks. -/
def Needs : Mode → PixelState → Prop
  | simple, s => s ≠ .available
  | trimap, s => s = .unrendered

instance : (m : Mode) → (s : PixelState) → Decidable (m.Needs s)
  | simple, s => inferInstanceAs (Decidable (s ≠ .available))
  | trimap, s => inferInstanceAs (Decidable (s = .unrendered))

@[simp] theorem needs_simple {s : PixelState} : simple.Needs s ↔ s ≠ .available := Iff.rfl

@[simp] theorem needs_trimap {s : PixelState} : trimap.Needs s ↔ s = .unrendered := Iff.rfl

end Mode

end PixelCoverage
