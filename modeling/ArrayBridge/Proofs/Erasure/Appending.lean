import ArrayBridge.Proofs.Erasure.Adapters

/-!
# One more binding

What is erased of a program does not change when a binding is added at its end: the binding is
planned in the scope of those before it, and its code comes after theirs. The declared types of
these are all that decides whether there is a plan of it.

Main results:

* `exists_places` — a program that is erased under some policy is placed under every policy.
* `Places.erase_concat`, `Places.erase_concat_eq_error` — a program with one more binding.
* `Places.exists_erase_append_iff` — when such a program is accepted, whatever it returns.
-/

namespace ArrayBridge

namespace Bridge

/-- Whether a local is declared at a type. -/
def Declares (bs : List Binding) (l : Local) (t : Ty) : Prop := ∃ b, bs[l]? = some b ∧ b.type = t

/-- A program with one more binding, which is returned. -/
def Program.concat (p : Program) (b : Binding) : Program := ⟨p.bindings ++ [b], p.bindings.length⟩

end Bridge

namespace Erasure

open Scope (Binds)

variable {policy policy' : AdapterPolicy} {p : Bridge.Program} {e : Erased.Program}
  {placed : Placement}

/-! ## Placed bindings -/

/-- Erasing goes on with the last binding. -/
theorem Placement.eraseAll_concat (p : Placement) (bs : List Bridge.Binding) (b : Bridge.Binding) :
    p.eraseAll policy (bs ++ [b]) =
      p.eraseAll policy bs >>= fun placed => placed.erase policy b := by
  induction bs generalizing p with
  | nil =>
    show (p.erase policy b >>= fun placed => placed.eraseAll policy []) = p.erase policy b
    cases p.erase policy b <;> rfl
  | cons c bs ih =>
    show (p.erase policy c >>= fun placed => placed.eraseAll policy (bs ++ [b])) =
      (p.erase policy c >>= fun placed => placed.eraseAll policy bs) >>= _
    cases p.erase policy c with
    | error error => rfl
    | ok placed => exact ih placed

/-- The bindings of a program have been placed. -/
structure Places (policy : AdapterPolicy) (p : Bridge.Program) (placed : Placement) : Prop where
  eraseAll : Placement.empty.eraseAll policy p.bindings = .ok placed
  scope : placed.scope.map Bound.binding = p.bindings
  adapters : placed.AdaptersFit

/-- The bindings of a program that is erased under some policy are placed under every policy. -/
theorem exists_places (h : p.erase policy' = .ok e) (policy : AdapterPolicy) :
    ∃ placed, Places policy p placed := by
  rw [erase_eq, planProgram] at h
  -- Only planning can fail, and it knows of no policy.
  cases hplans : planAll [] p.bindings with
  | error error =>
    rw [hplans] at h
    cases h
  | ok plans =>
    have hplaced : Placement.empty.eraseAll policy p.bindings =
        .ok (Placement.empty.placeAll policy plans) := by
      rw [Placement.eraseAll_eq]
      show _ <$> planAll [] p.bindings = _
      rw [hplans]
      rfl
    exact ⟨_, hplaced, Placement.bindings_scope_placeAll (p := .empty) hplans,
      Placement.adaptersFit_empty.eraseAll hplaced⟩

namespace Places

theorem length_scope (h : Places policy p placed) : placed.scope.length = p.bindings.length := by
  rw [← h.scope, List.length_map]

/-- A local that is declared is bound in the scope. -/
theorem exists_binds {l : Local} {t : Bridge.Ty} (h : Places policy p placed)
    (hl : Bridge.Declares p.bindings l t) : ∃ e, placed.scope.Binds l t e := by
  obtain ⟨b, hb, rfl⟩ := hl
  rw [← h.scope, List.getElem?_map] at hb
  obtain ⟨c, hc, rfl⟩ := Option.map_eq_some_iff.mp hb
  exact ⟨_, c, hc, rfl, rfl⟩

/-- A local that is bound in the scope is declared. -/
theorem declares_of_binds {l e : Local} {t : Bridge.Ty} (h : Places policy p placed)
    (hl : placed.scope.Binds l t e) : Bridge.Declares p.bindings l t := by
  obtain ⟨b, hb, rfl, -⟩ := hl
  refine ⟨b.binding, ?_, rfl⟩
  rw [← h.scope, List.getElem?_map, hb]
  rfl

/-- A program that returns one of the locals. -/
theorem erase_of_binds {l array : Local} {t : Bridge.Ty} (h : Places policy p placed)
    (hl : placed.scope.Binds l t array) :
    Bridge.Program.erase policy ⟨p.bindings, l⟩ = .ok ⟨placed.bindings, array⟩ := by
  obtain ⟨b, hb, -, rfl⟩ := hl
  simp only [Bridge.Program.erase, h.eraseAll, Check.ok_bind, hb]
  rfl

/-- A program with one more binding is erased by placing the plan of it. -/
theorem erase_concat {plan : Plan} (h : Places policy p placed) (b : Bridge.Binding)
    (hplan : placed.scope.plan b.type b.expr = .ok plan) :
    (p.concat b).erase policy =
      .ok ⟨(placed.place policy b plan).bindings, (placed.code policy plan).1⟩ := by
  simp only [Bridge.Program.erase, Bridge.Program.concat, Placement.eraseAll_concat, h.eraseAll,
    Check.ok_bind, Placement.erase, hplan, Placement.scope_place]
  -- The binding that is appended is the result of the program.
  rw [← h.length_scope, List.getElem?_concat_length]
  rfl

/-- It is refused at that binding if there is no plan of it. -/
theorem erase_concat_eq_error {fault : Fault} (h : Places policy p placed) (b : Bridge.Binding)
    (hplan : placed.scope.plan b.type b.expr = .error fault) :
    (p.concat b).erase policy = .error ⟨p.bindings.length, fault⟩ := by
  simp only [Bridge.Program.erase, Bridge.Program.concat, Placement.eraseAll_concat, h.eraseAll,
    Check.ok_bind, Placement.erase, hplan, h.length_scope]
  rfl

/-- Whatever is returned, the program is accepted exactly if there is a plan of the binding and the
result is bound. -/
theorem exists_erase_append_iff {result : Nat} (h : Places policy p placed)
    (b : Bridge.Binding) :
    (∃ e, Bridge.Program.erase policy ⟨p.bindings ++ [b], result⟩ = .ok e) ↔
      (∃ plan, placed.scope.plan b.type b.expr = .ok plan) ∧ result ≤ p.bindings.length := by
  simp only [Bridge.Program.erase, Placement.eraseAll_concat, h.eraseAll, Check.ok_bind,
    Placement.erase]
  cases hplan : placed.scope.plan b.type b.expr with
  | error fault =>
    constructor
    · rintro ⟨e, he⟩
      cases he
    · rintro ⟨⟨plan, hplan⟩, -⟩
      cases hplan
  | ok plan =>
    -- every binding adds one local to the scope, so the result is bound up to the last
    have hlength : (placed.place policy b plan).scope.length = p.bindings.length + 1 := by
      rw [Placement.scope_place, List.length_append, List.length_singleton, h.length_scope]
    simp only [Check.ok_bind]
    constructor
    · rintro ⟨e, he⟩
      refine ⟨⟨plan, rfl⟩, ?_⟩
      by_contra hlt
      have hnone : (placed.place policy b plan).scope[result]? = none :=
        List.getElem?_eq_none (by omega)
      rw [hnone] at he
      cases he
    · rintro ⟨-, hle⟩
      have hlt : result < (placed.place policy b plan).scope.length := by omega
      rw [List.getElem?_eq_getElem hlt]
      exact ⟨_, rfl⟩

end Places

end Erasure

end ArrayBridge
