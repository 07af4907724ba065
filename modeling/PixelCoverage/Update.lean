import PixelCoverage.Fault

/-!
# Changes that a fault may cut short

A change reads and writes a state and may end in a fault. A fault does not take back what
was written before it: the state stays as it was reached, since whoever shares the state
goes on with it.

So a run has three parts to speak about: its outcome, the state after success, and the
state after a fault.
-/

namespace PixelCoverage

/-- A change of a `σ`. A fault leaves the state that was reached. -/
abbrev Update (σ : Type) := EStateM Fault σ

namespace Update

variable {σ τ α : Type}

/-- Asks something of the state, which stays as it is. -/
def query (q : σ → Except Fault α) : Update σ α := fun s =>
  match q s with
  | .ok a => .ok a s
  | .error f => .error f s

/-- Changes a part of the state, found by `get` and stored by `put`. -/
def onPart (get : σ → τ) (put : σ → τ → σ) (u : Update τ α) : Update σ α := fun s =>
  match u (get s) with
  | .ok a t => .ok a (put s t)
  | .error f t => .error f (put s t)

theorem query_of_ok {q : σ → Except Fault α} {s : σ} {a : α} (h : q s = .ok a) :
    query q s = .ok a s := by
  simp only [query, h]

theorem query_of_error {q : σ → Except Fault α} {s : σ} {f : Fault} (h : q s = .error f) :
    query q s = .error f s := by
  simp only [query, h]

theorem onPart_of_ok {get : σ → τ} {put : σ → τ → σ} {u : Update τ α} {s : σ} {a : α} {t : τ}
    (h : u (get s) = .ok a t) : onPart get put u s = .ok a (put s t) := by
  simp only [onPart, h]

theorem onPart_of_error {get : σ → τ} {put : σ → τ → σ} {u : Update τ α} {s : σ} {f : Fault}
    {t : τ} (h : u (get s) = .error f t) : onPart get put u s = .error f (put s t) := by
  simp only [onPart, h]

end Update

end PixelCoverage
