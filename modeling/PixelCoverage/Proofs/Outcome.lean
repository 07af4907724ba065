import PixelCoverage.CoverageMap.Edit

/-!
# The state that a change leaves

A fault does not take back what was written before it, so a change leaves a state in any
case. `Update.left` is that state, and `Update.Keeps P` says that it has `P` whenever the
state before had. The property is closed under everything a change is built from, so a
change keeps `P` as soon as its single writes do.

`Update.Follows R f` speaks of success only. It says that a change of the state is, seen
through the relation `R`, the function `f` of another kind of state.
-/

namespace PixelCoverage.Update

variable {σ τ α β : Type} {P : σ → Prop}

/-- The state that a change leaves, whether it succeeds or ends in a fault. -/
def left (u : Update σ α) (s : σ) : σ :=
  match u s with
  | .ok _ t => t
  | .error _ t => t

theorem left_of_ok {u : Update σ α} {s t : σ} {a : α} (h : u s = .ok a t) : u.left s = t := by
  rw [left, h]

theorem left_of_error {u : Update σ α} {s t : σ} {f : Fault} (h : u s = .error f t) :
    u.left s = t := by
  rw [left, h]

/-- The change ends in a fault, or goes on with what it has found. -/
theorem left_bind (u : Update σ α) (k : α → Update σ β) (s : σ) :
    (u >>= k).left s = match u s with
      | .ok a t => (k a).left t
      | .error _ t => t := by
  show (match EStateM.bind u k s with | .ok _ t => t | .error _ t => t) = _
  unfold EStateM.bind
  cases u s with
  | ok a t => rfl
  | error f t => rfl

/-- A change that begins with a look at the state goes on with what it sees. -/
theorem get_bind_apply (k : σ → Update σ α) (s : σ) : (get >>= k) s = k s s := rfl

theorem bind_of_ok {u : Update σ α} {s t : σ} {a : α} (h : u s = .ok a t) (k : α → Update σ β) :
    (u >>= k) s = k a t := by
  show EStateM.bind u k s = _
  unfold EStateM.bind
  rw [h]

theorem bind_of_error {u : Update σ α} {s t : σ} {f : Fault} (h : u s = .error f t)
    (k : α → Update σ β) : (u >>= k) s = .error f t := by
  show EStateM.bind u k s = _
  unfold EStateM.bind
  rw [h]

/-- Both parts of a change that succeeds have succeeded. -/
theorem bind_eq_ok {u : Update σ α} {k : α → Update σ β} {s t : σ} {b : β}
    (h : (u >>= k) s = .ok b t) : ∃ a s', u s = .ok a s' ∧ k a s' = .ok b t := by
  change EStateM.bind u k s = .ok b t at h
  unfold EStateM.bind at h
  cases hu : u s with
  | ok a s' => rw [hu] at h; exact ⟨a, s', rfl, h⟩
  | error f s' => rw [hu] at h; exact absurd h (by simp)

/-- A change that fails has done so in one of its parts. -/
theorem bind_eq_error {u : Update σ α} {k : α → Update σ β} {s t : σ} {f : Fault}
    (h : (u >>= k) s = .error f t) :
    u s = .error f t ∨ ∃ a s', u s = .ok a s' ∧ k a s' = .error f t := by
  change EStateM.bind u k s = .error f t at h
  unfold EStateM.bind at h
  cases hu : u s with
  | ok a s' => rw [hu] at h; exact Or.inr ⟨a, s', rfl, h⟩
  | error f' s' => rw [hu] at h; cases h; exact Or.inl rfl

theorem query_eq_ok {q : σ → Except Fault α} {s t : σ} {a : α} (h : query q s = .ok a t) :
    q s = .ok a ∧ t = s := by
  unfold query at h
  cases hq : q s with
  | ok b => rw [hq] at h; cases h; exact ⟨rfl, rfl⟩
  | error f => rw [hq] at h; exact absurd h (by simp)

theorem query_eq_error {q : σ → Except Fault α} {s t : σ} {f : Fault}
    (h : query q s = .error f t) : q s = .error f ∧ t = s := by
  unfold query at h
  cases hq : q s with
  | ok b => rw [hq] at h; exact absurd h (by simp)
  | error f' => rw [hq] at h; cases h; exact ⟨rfl, rfl⟩

@[simp] theorem left_query (q : σ → Except Fault α) (s : σ) : (query q).left s = s := by
  unfold left query
  cases q s with
  | ok a => rfl
  | error f => rfl

theorem left_onPart (get : σ → τ) (put : σ → τ → σ) (u : Update τ α) (s : σ) :
    (onPart get put u).left s = put s (u.left (get s)) := by
  unfold left onPart
  cases u (get s) with
  | ok a t => rfl
  | error f t => rfl

theorem forM_cons_of_ok {ι : Type} {body : ι → Update σ PUnit} {i : ι} {l : List ι} {s t : σ}
    (h : body i s = .ok () t) : (i :: l).forM body s = l.forM body t :=
  bind_of_ok h fun _ => l.forM body

theorem forM_cons_of_error {ι : Type} {body : ι → Update σ PUnit} {i : ι} {l : List ι} {s t : σ}
    {f : Fault} (h : body i s = .error f t) : (i :: l).forM body s = .error f t :=
  bind_of_error h fun _ => l.forM body

/-- What a change keeps, however it ends. -/
def Keeps (P : σ → Prop) (u : Update σ α) : Prop := ∀ s, P s → P (u.left s)

theorem Keeps.pure (a : α) : Keeps P (Pure.pure a : Update σ α) := fun _ h => h

theorem Keeps.throw (f : Fault) : Keeps P (MonadExcept.throw f : Update σ α) := fun _ h => h

theorem Keeps.query (q : σ → Except Fault α) : Keeps P (query q) := by
  intro s h
  rw [left_query]
  exact h

theorem Keeps.modify {f : σ → σ} (hf : ∀ s, P s → P (f s)) :
    Keeps P (modify f : Update σ PUnit) := fun s h => hf s h

theorem Keeps.bind {u : Update σ α} {k : α → Update σ β} (hu : Keeps P u)
    (hk : ∀ a, Keeps P (k a)) : Keeps P (u >>= k) := by
  intro s h
  have h' := hu s h
  rw [left_bind]
  rw [left] at h'
  cases hus : u s with
  | ok a t => rw [hus] at h'; exact hk a t h'
  | error f t => rw [hus] at h'; exact h'

/-- What goes on after a look at the state may be told what was seen. -/
theorem Keeps.get_bind {k : σ → Update σ α} (hk : ∀ s, P s → Keeps P (k s)) :
    Keeps P (get >>= k) := fun s h => hk s h s h

theorem Keeps.ite {c : Prop} [Decidable c] {u v : Update σ α} (hu : c → Keeps P u)
    (hv : ¬ c → Keeps P v) : Keeps P (if c then u else v) := by
  split
  · exact hu ‹c›
  · exact hv ‹¬ c›

theorem Keeps.forM {ι : Type} {body : ι → Update σ PUnit} (l : List ι)
    (h : ∀ i ∈ l, Keeps P (body i)) : Keeps P (l.forM body) := by
  induction l with
  | nil => exact Keeps.pure _
  | cons i l ih =>
    exact Keeps.bind (h i List.mem_cons_self) fun _ =>
      ih fun j hj => h j (List.mem_cons_of_mem i hj)

theorem Keeps.onPart {Q : τ → Prop} {get : σ → τ} {put : σ → τ → σ} {u : Update τ α}
    (hu : Keeps Q u) (hget : ∀ s, P s → Q (get s)) (hput : ∀ s t, P s → Q t → P (put s t)) :
    Keeps P (onPart get put u) := by
  intro s h
  rw [left_onPart]
  exact hput s _ h (hu _ (hget s h))

/-- What goes on after a change does not matter for what it keeps. -/
theorem left_bind_of_keeps {f : σ → τ} {u : Update σ α} {k : α → Update σ β}
    (hk : ∀ a x, Keeps (fun s => f s = x) (k a)) (s : σ) : f ((u >>= k).left s) = f (u.left s) := by
  rw [left_bind, left]
  cases u s with
  | ok a t => exact hk a (f t) t rfl
  | error e t => rfl

/-! ## Changes that follow a function -/

section Follows

variable {R : σ → τ → Prop} {f g : τ → τ}

/-- Whenever the change succeeds, it does to a state what `f` does to a related one. -/
def Follows (R : σ → τ → Prop) (f : τ → τ) (u : Update σ α) : Prop :=
  ∀ s t, R s t → ∀ a s', u s = .ok a s' → R s' (f t)

theorem Follows.pure (a : α) : Follows R id (Pure.pure a : Update σ α) := by
  intro s t h _ s' hu
  cases hu
  exact h

theorem Follows.bind {u : Update σ α} {k : α → Update σ β} (hu : Follows R f u)
    (hk : ∀ a, Follows R g (k a)) : Follows R (g ∘ f) (u >>= k) := by
  intro s t h b s'' hb
  obtain ⟨a, s', ha, hb⟩ := bind_eq_ok hb
  exact hk a s' (f t) (hu s t h a s' ha) b s'' hb

/-- What is made of the answer does not matter. -/
theorem Follows.answer {u : Update σ α} {k : α → Update σ β} (hu : Follows R f u)
    (hk : ∀ a, Follows R id (k a)) : Follows R f (u >>= k) :=
  Follows.bind (g := id) hu hk

theorem Follows.map {u : Update σ α} (k : α → β) (hu : Follows R f u) :
    Follows R f (k <$> u) := by
  intro s t h b s' hb
  change EStateM.map k u s = .ok b s' at hb
  unfold EStateM.map at hb
  cases ha : u s with
  | ok a s₁ =>
    rw [ha] at hb
    cases hb
    exact hu s t h a s' ha
  | error e s₁ =>
    rw [ha] at hb
    cases hb

/-- Changes made one after the other follow their functions one after the other. -/
theorem Follows.forM {ι : Type} {body : ι → Update σ PUnit} {step : ι → τ → τ} (l : List ι)
    (h : ∀ i, Follows R (step i) (body i)) :
    Follows R (fun t => l.foldl (fun t i => step i t) t) (l.forM body) := by
  induction l with
  | nil => exact Follows.pure _
  | cons i l ih => exact Follows.bind (h i) fun _ => ih

end Follows

end PixelCoverage.Update
