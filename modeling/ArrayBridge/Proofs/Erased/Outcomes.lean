import ArrayBridge.Proofs.Erased.Evaluation

/-!
# Comparing how runs end

Two programs that number their locals differently may still end alike: in the same store, with the
same value or with the same error. Only a dynamic type error names a local, which is left out of the
comparison.

Main results:

* `SameOutcomeUpTo.bind` — sequences end alike if their steps do.
* `SameOutcomeUpTo.symm`, `SameOutcomeUpTo.trans` — ending alike is an equivalence.
* `Env.sameOutcome_of_operand` — reading an operand that has the same value on both sides.
-/

namespace ArrayBridge

open ArrayBridge.Erased (Value Env RunError)
open ArrayBridge.Action (lift)

/-- An error without the local that was not as expected. -/
def Erased.RunError.withoutLocal : RunError → RunError
  | .dynamicType _ expected found => .dynamicType 0 expected found
  | error => error

/-- Whether two runs end in the same store, with related values or with the same error, the locals
in dynamic type errors apart. -/
def SameOutcomeUpTo {α β : Type} (related : α → β → Prop) :
    EStateM.Result RunError Store α → EStateM.Result RunError Store β → Prop
  | .ok a s, .ok b s' => related a b ∧ s = s'
  | .error e s, .error e' s' => e.withoutLocal = e'.withoutLocal ∧ s = s'
  | _, _ => False

/-- Whether two runs end in the same store, with the same value or with the same error, the locals
in dynamic type errors apart. -/
def SameOutcome :
    EStateM.Result RunError Store Value → EStateM.Result RunError Store Value → Prop :=
  SameOutcomeUpTo Eq

namespace SameOutcomeUpTo

variable {α β γ δ : Type} {R : α → β → Prop} {S : γ → δ → Prop}

theorem rfl_eq (r : EStateM.Result RunError Store α) : SameOutcomeUpTo Eq r r := by
  cases r <;> exact ⟨rfl, rfl⟩

theorem of_eq {r r' : EStateM.Result RunError Store α} (h : r = r') : SameOutcomeUpTo Eq r r' :=
  h ▸ rfl_eq r

theorem symm {r r' : EStateM.Result RunError Store α} (h : SameOutcomeUpTo Eq r r') :
    SameOutcomeUpTo Eq r' r := by
  cases r <;> cases r'
  · exact ⟨h.1.symm, h.2.symm⟩
  · exact h.elim
  · exact h.elim
  · exact ⟨h.1.symm, h.2.symm⟩

/-- Outcomes are compared from one run to the next. -/
theorem trans {r r' r'' : EStateM.Result RunError Store α} (h : SameOutcomeUpTo Eq r r')
    (h' : SameOutcomeUpTo Eq r' r'') : SameOutcomeUpTo Eq r r'' := by
  -- the outcome in the middle is of the kind of both others
  cases r <;> cases r' <;> cases r''
  case ok.ok.ok => exact ⟨h.1.trans h'.1, h.2.trans h'.2⟩
  case error.error.error => exact ⟨h.1.trans h'.1, h.2.trans h'.2⟩
  all_goals first | exact h.elim | exact h'.elim

/-- A weaker relation between values is enough for a weaker comparison. -/
theorem mono {R' : α → β → Prop} {r : EStateM.Result RunError Store α}
    {r' : EStateM.Result RunError Store β} (h : SameOutcomeUpTo R r r')
    (himp : ∀ a b, R a b → R' a b) : SameOutcomeUpTo R' r r' := by
  cases r <;> cases r'
  · exact ⟨himp _ _ h.1, h.2⟩
  · exact h.elim
  · exact h.elim
  · exact h

/-- A run whose counterpart ends with a value ends with a related one, -/
theorem exists_of_ok {r : EStateM.Result RunError Store α} {b : β} {s : Store}
    (h : SameOutcomeUpTo R r (.ok b s)) : ∃ a, r = .ok a s ∧ R a b := by
  cases r with
  | ok a s' =>
    obtain ⟨hab, rfl⟩ := h
    exact ⟨a, rfl, hab⟩
  | error e s' => exact h.elim

/-- and one whose counterpart fails fails in the same store. -/
theorem exists_of_error {r : EStateM.Result RunError Store α} {e : RunError} {s : Store}
    (h : SameOutcomeUpTo R r (.error e s)) : ∃ e', r = .error e' s := by
  cases r with
  | ok a s' => exact h.elim
  | error e' s' =>
    obtain ⟨-, rfl⟩ := h
    exact ⟨e', rfl⟩

/-- Sequences end alike if their first steps do, and their second steps do wherever the first ones
lead. -/
theorem bind {x : Action RunError α} {y : Action RunError β} {f : α → Action RunError γ}
    {g : β → Action RunError δ} {s : Store} (h : SameOutcomeUpTo R (x s) (y s))
    (hf : ∀ a b s', x s = .ok a s' → y s = .ok b s' → R a b → SameOutcomeUpTo S (f a s') (g b s')) :
    SameOutcomeUpTo S ((x >>= f) s) ((y >>= g) s) := by
  -- both first steps end or both fail, as `h` rules out the mixed cases
  cases hx : x s with
  | ok a s₁ =>
    cases hy : y s with
    | ok b s₂ =>
      rw [hx, hy] at h
      obtain ⟨hab, rfl⟩ := h
      rw [Action.bind_of_ok hx, Action.bind_of_ok hy]
      exact hf a b s₁ hx hy hab
    | error e s₂ =>
      rw [hx, hy] at h
      exact h.elim
  | error e s₁ =>
    cases hy : y s with
    | ok b s₂ =>
      rw [hx, hy] at h
      exact h.elim
    | error e' s₂ =>
      rw [hx, hy] at h
      rw [Action.bind_of_error hx, Action.bind_of_error hy]
      exact h

/-- A step that both sides take in the same way leaves their rests to be compared. -/
theorem bind_self {x : Action RunError α} {f : α → Action RunError γ} {g : α → Action RunError δ}
    {s : Store} (hf : ∀ a s', SameOutcomeUpTo S (f a s') (g a s')) :
    SameOutcomeUpTo S ((x >>= f) s) ((x >>= g) s) := by
  refine (rfl_eq (x s)).bind fun a b s' _ _ hab => ?_
  rw [hab]
  exact hf b s'

end SameOutcomeUpTo

/-! ## Operands -/

namespace Erased

/-- Reading an operand that has the same value in two environments succeeds in both, or fails in
both because that value is not as expected. -/
theorem Env.operand_cases {α : Type} (expected : Expectation) (read : Value → Option α)
    {env env' : Env} {l l' : Local} {v : Value} (hv : env[l]? = some v) (hv' : env'[l']? = some v) :
    (∃ a, env.operand expected read l = .ok a ∧ env'.operand expected read l' = .ok a) ∨
      env.operand expected read l = .error (.dynamicType l expected v.shape) ∧
        env'.operand expected read l' = .error (.dynamicType l' expected v.shape) := by
  cases hr : read v with
  | some a => exact .inl ⟨a, operand_eq_ok.mpr ⟨v, hv, hr⟩, operand_eq_ok.mpr ⟨v, hv', hr⟩⟩
  | none => exact .inr ⟨operand_of_none hv hr, operand_of_none hv' hr⟩

/-- So a step that begins with it ends alike if it does once the operand is read. -/
theorem Env.sameOutcome_of_operand {α β γ : Type} {R : β → γ → Prop} {expected : Expectation}
    {read : Value → Option α} {env env' : Env} {l l' : Local} {v : Value}
    {f : α → Action RunError β} {g : α → Action RunError γ} {s : Store}
    (hv : env[l]? = some v) (hv' : env'[l']? = some v)
    (h : ∀ a, env.operand expected read l = .ok a → env'.operand expected read l' = .ok a →
      SameOutcomeUpTo R (f a s) (g a s)) :
    SameOutcomeUpTo R ((lift (env.operand expected read l) >>= f) s)
      ((lift (env'.operand expected read l') >>= g) s) := by
  -- an operand is decided by its value, so both read it or both fail
  rcases operand_cases expected read hv hv' with ⟨a, ha, ha'⟩ | ⟨he, he'⟩
  · rw [ha, ha', Action.lift_ok, Action.pure_bind_apply, Action.pure_bind_apply]
    exact h a ha ha'
  · rw [he, he', Action.lift_error, Action.lift_error, Action.throw_bind_apply,
      Action.throw_bind_apply]
    exact ⟨rfl, rfl⟩

end Erased

end ArrayBridge
