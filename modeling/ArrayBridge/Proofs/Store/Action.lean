import ArrayBridge.Store.Basic

/-!
# How actions end

An action started in a store ends with a result or with a failure, and with a store either way.
The lemmas here say how each way of building an action ends, so that a proof about a sequence of
steps can be taken apart one step at a time.

Main results:

* `bind_eq_ok`, `bind_eq_error` — a sequence ends well exactly if both steps do, and fails where
  the first of them fails.
* `lift_eq_ok`, `mapError_eq_ok`, … — the same for the other ways of building an action.
-/

namespace ArrayBridge.Action

variable {ε ε' σ α β : Type} {s s' : Store}

@[simp] theorem pure_apply (a : α) : (pure a : Action ε α) s = .ok a s := rfl

@[simp] theorem throw_apply (e : ε) : (throw e : Action ε α) s = .error e s := rfl

@[simp] theorem view_apply (f : Store → α) : (view f : Action ε α) s = .ok (f s) s := rfl

@[simp] theorem change_apply (f : Store → α × Store) :
    (change f : Action ε α) s = .ok (f s).1 (f s).2 := rfl

@[simp] theorem lift_ok (a : α) : (lift (.ok a) : Action ε α) = pure a := rfl

@[simp] theorem lift_error (e : ε) : (lift (.error e) : Action ε α) = throw e := rfl

/-! ## Sequences -/

/-- Said of any state, as programs are also run on stores of other kinds. -/
theorem bind_of_ok {x : EStateM ε σ α} {f : α → EStateM ε σ β} {a : α} {s s' : σ}
    (h : x s = .ok a s') : (x >>= f) s = f a s' := by
  show EStateM.bind x f s = f a s'
  rw [EStateM.bind, h]

theorem bind_of_error {x : EStateM ε σ α} {f : α → EStateM ε σ β} {e : ε} {s s' : σ}
    (h : x s = .error e s') : (x >>= f) s = .error e s' := by
  show EStateM.bind x f s = .error e s'
  rw [EStateM.bind, h]

@[simp] theorem pure_bind_apply (a : α) (f : α → Action ε β) : (pure a >>= f) s = f a s :=
  bind_of_ok (pure_apply a)

@[simp] theorem throw_bind_apply (e : ε) (f : α → Action ε β) :
    (throw e >>= f) s = .error e s :=
  bind_of_error (throw_apply e)

@[simp] theorem view_bind_apply (f : Store → α) (g : α → Action ε β) :
    (view f >>= g) s = g (f s) s :=
  bind_of_ok (view_apply f)

/-- Two actions end with a result if both do. -/
theorem bind_eq_ok {x : Action ε α} {f : α → Action ε β} {b : β} :
    (x >>= f) s = .ok b s' ↔ ∃ a s₁, x s = .ok a s₁ ∧ f a s₁ = .ok b s' := by
  cases hx : x s with
  | ok a s₁ =>
    rw [bind_of_ok hx]
    constructor
    · exact fun h => ⟨a, s₁, rfl, h⟩
    · rintro ⟨_, _, ⟨⟩, h⟩
      exact h
  | error e s₁ => simp [bind_of_error hx]

/-- They fail with the first or with the second. -/
theorem bind_eq_error {x : Action ε α} {f : α → Action ε β} {e : ε} :
    (x >>= f) s = .error e s' ↔
      x s = .error e s' ∨ ∃ a s₁, x s = .ok a s₁ ∧ f a s₁ = .error e s' := by
  cases hx : x s with
  | ok a s₁ =>
    rw [bind_of_ok hx]
    constructor
    · exact fun h => .inr ⟨a, s₁, rfl, h⟩
    · rintro (h | ⟨_, _, ⟨⟩, h⟩)
      · cases h
      · exact h
  | error e s₁ => simp [bind_of_error hx]

/-- Steps that end alike may be gone on from. -/
theorem bind_congr {x y : EStateM ε σ α} (f : α → EStateM ε σ β) {s : σ} (h : x s = y s) :
    (x >>= f) s = (y >>= f) s := by
  show EStateM.bind x f s = EStateM.bind y f s
  rw [EStateM.bind, EStateM.bind, h]

/-- Checks one after another may be lifted one after another. -/
theorem lift_bind (r : Except ε α) (f : α → Except ε β) :
    (lift (r >>= f) : Action ε β) = lift r >>= fun a => lift (f a) := by
  cases r <;> rfl

/-- What goes on from a result only matters where there is one. -/
theorem lift_bind_congr {x : Except ε α} {f g : α → Action ε β}
    (h : ∀ a, x = .ok a → f a s = g a s) : (lift x >>= f) s = (lift x >>= g) s := by
  cases x with
  | error e => rfl
  | ok a => exact h a rfl

/-! ## Single steps -/

theorem lift_eq_ok {r : Except ε α} {a : α} : lift r s = .ok a s' ↔ r = .ok a ∧ s' = s := by
  cases r <;> simp [eq_comm]

theorem mapError_of_ok {f : ε → ε'} {x : Action ε α} {a : α} (h : x s = .ok a s') :
    mapError f x s = .ok a s' := by
  rw [mapError, EStateM.adaptExcept, h]

theorem mapError_of_error {f : ε → ε'} {x : Action ε α} {e : ε} (h : x s = .error e s') :
    mapError f x s = .error (f e) s' := by
  rw [mapError, EStateM.adaptExcept, h]

theorem mapError_eq_ok {f : ε → ε'} {x : Action ε α} {a : α} :
    mapError f x s = .ok a s' ↔ x s = .ok a s' := by
  cases hx : x s with
  | ok b s₁ => simp [mapError_of_ok hx]
  | error e s₁ => simp [mapError_of_error hx]

/-- A failure that is renamed was one before. -/
theorem mapError_eq_error {f : ε → ε'} {x : Action ε α} {e' : ε'} :
    mapError f x s = .error e' s' ↔ ∃ e, x s = .error e s' ∧ f e = e' := by
  cases hx : x s with
  | ok a s₁ => simp [mapError_of_ok hx]
  | error e s₁ =>
    simp only [mapError_of_error hx, EStateM.Result.error.injEq]
    constructor
    · rintro ⟨h, rfl⟩
      exact ⟨e, ⟨rfl, rfl⟩, h⟩
    · rintro ⟨e₁, ⟨rfl, rfl⟩, h⟩
      exact ⟨h, rfl⟩

end ArrayBridge.Action
