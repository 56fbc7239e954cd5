import Mathlib.Order.Defs.Unbundled

/-!
# Computations that fail or go on

How a computation splits into its steps, for computations with a state and for those
without. Checks, lowering and the meaning of trees are all written in
these two kinds.
-/

namespace Rill

section State

variable {ε σ α β : Type}

/-- The state that a computation leaves, however it ends. -/
def stateAfter : EStateM.Result ε σ α → σ
  | .ok _ s | .error _ s => s

def succeeds : EStateM.Result ε σ α → Bool
  | .ok .. => true
  | .error .. => false

/-- Whether a computation succeeds can be decided where its states cannot be compared. -/
theorem eq_ok_of_succeeds {r : EStateM.Result ε σ Unit} (done : succeeds r = true) :
    r = .ok () (stateAfter r) := by
  cases r with
  | ok u s => rfl
  | error e s => cases done

theorem bind_apply (x : EStateM ε σ α) (f : α → EStateM ε σ β) (s : σ) :
    (x >>= f) s =
      match x s with
      | .ok a t => f a t
      | .error e t => .error e t := rfl

/-- Two steps succeed just if both do, the second in the state that the first one leaves. -/
theorem bind_eq_ok {x : EStateM ε σ α} {f : α → EStateM ε σ β} {s t : σ} {b : β} :
    (x >>= f) s = .ok b t ↔ ∃ a u, x s = .ok a u ∧ f a u = .ok b t := by
  rw [bind_apply]
  cases x s with
  | ok a u =>
      constructor
      · intro h
        exact ⟨a, u, rfl, h⟩
      · rintro ⟨_, _, h, next⟩
        cases h
        exact next
  | error e u => simp

theorem pure_eq_ok {s t : σ} {a b : α} :
    (pure a : EStateM ε σ α) s = .ok b t ↔ a = b ∧ s = t := by
  change EStateM.Result.ok a s = .ok b t ↔ _
  simp

theorem throw_eq_ok {e : ε} {s t : σ} {a : α} :
    (throw e : EStateM ε σ α) s = .ok a t ↔ False := by
  change EStateM.Result.error e s = .ok a t ↔ _
  simp

theorem get_eq_ok {s t u : σ} : (get : EStateM ε σ σ) s = .ok t u ↔ s = t ∧ s = u := by
  change EStateM.Result.ok s s = .ok t u ↔ _
  simp

theorem set_eq_ok {s t u : σ} {a : PUnit} :
    (set t : EStateM ε σ PUnit) s = .ok a u ↔ t = u := by
  change EStateM.Result.ok PUnit.unit t = .ok a u ↔ _
  simp

theorem modify_eq_ok {f : σ → σ} {s t : σ} {a : PUnit} :
    (modify f : EStateM ε σ PUnit) s = .ok a t ↔ f s = t := by
  change EStateM.Result.ok PUnit.unit (f s) = .ok a t ↔ _
  simp

/-- However a computation ends, the state it leaves is in this relation to the first one. -/
def Leaves (R : σ → σ → Prop) (x : EStateM ε σ α) : Prop :=
  ∀ s, R s (stateAfter (x s))

namespace Leaves

variable {R : σ → σ → Prop}

/-- The relation for a computation that succeeds. -/
theorem of_ok {x : EStateM ε σ α} {s t : σ} {a : α} (h : Leaves R x) (done : x s = .ok a t) :
    R s t := by
  have left := h s
  rw [done] at left
  exact left

variable [IsPreorder σ R]

theorem pure (a : α) : Leaves R (Pure.pure a : EStateM ε σ α) :=
  fun s => refl_of R s

theorem throw (e : ε) : Leaves R (MonadExcept.throw e : EStateM ε σ α) :=
  fun s => refl_of R s

theorem get : Leaves R (MonadState.get : EStateM ε σ σ) :=
  fun s => refl_of R s

/-- The relation is reflexive and transitive, so it holds across all steps if it holds across each.
-/
theorem bind {x : EStateM ε σ α} {f : α → EStateM ε σ β} (first : Leaves R x)
    (next : ∀ a, Leaves R (f a)) : Leaves R (x >>= f) := by
  intro s
  have left := first s
  rw [bind_apply]
  cases outcome : x s with
  | ok a t =>
      rw [outcome] at left
      exact trans_of R left (next a t)
  | error e t =>
      rw [outcome] at left
      exact left

end Leaves

end State

section Plain

variable {ε α β : Type}

theorem except_bind_eq_ok {x : Except ε α} {f : α → Except ε β} {b : β} :
    (x >>= f) = .ok b ↔ ∃ a, x = .ok a ∧ f a = .ok b := by
  cases x <;> simp [bind, Except.bind]

/-- The first error is that of the whole. -/
theorem except_bind_eq_error {x : Except ε α} {f : α → Except ε β} {e : ε} :
    (x >>= f) = .error e ↔ x = .error e ∨ ∃ a, x = .ok a ∧ f a = .error e := by
  cases x <;> simp [bind, Except.bind]

theorem except_map_eq_ok {x : Except ε α} {f : α → β} {b : β} :
    x.map f = .ok b ↔ ∃ a, x = .ok a ∧ f a = b := by
  cases x with
  | ok a =>
      change Except.ok (f a) = .ok b ↔ _
      simp
  | error e =>
      change Except.error e = .ok b ↔ _
      simp

theorem except_map_eq_error {x : Except ε α} {f : α → β} {e : ε} :
    x.map f = .error e ↔ x = .error e := by
  cases x with
  | ok a =>
      change Except.ok (f a) = .error e ↔ _
      simp
  | error e' =>
      change Except.error e' = .error e ↔ _
      simp

theorem except_mapError_eq_error {ε' : Type} {x : Except ε α} {f : ε → ε'} {e' : ε'} :
    x.mapError f = .error e' ↔ ∃ e, x = .error e ∧ f e = e' := by
  cases x with
  | ok a =>
      change Except.ok a = .error e' ↔ _
      simp
  | error e =>
      change Except.error (f e) = .error e' ↔ _
      simp

theorem except_mapError_eq_ok {ε' : Type} {x : Except ε α} {f : ε → ε'} {a : α} :
    x.mapError f = .ok a ↔ x = .ok a := by
  cases x with
  | ok b =>
      change Except.ok b = .ok a ↔ _
      simp
  | error e =>
      change Except.error (f e) = .ok a ↔ _
      simp

theorem except_pure_eq_ok {a b : α} : (pure a : Except ε α) = .ok b ↔ a = b := by
  simp [pure, Except.pure]

theorem except_pure_eq_error {a : α} {e : ε} : (pure a : Except ε α) = .error e ↔ False := by
  simp [pure, Except.pure]

theorem except_throw_eq_ok {e : ε} {a : α} : (throw e : Except ε α) = .ok a ↔ False := by
  simp [throw, throwThe, MonadExceptOf.throw]

end Plain

end Rill
