import ArrayBridge.Proofs.Erased.Runs
import ArrayBridge.Proofs.Erasure.Phases

/-!
# Adapters

What a placement records as the adapter of a bridge local is bound to code that adapts the native
array which stands for that local, under either policy. Whenever such code has been run, it holds a
view of the array, and has left the store alone.

Main results:

* `AdaptersFit.place`, `AdaptersFit.eraseAll` — placing plans keeps the record of adapters right.
* `AdaptersFit.adapter` — what is used as the adapter of an array adapts it, made now or before.
* `place_adaptFresh` — a fresh array is never confused with one that has been adapted before.
* `holdsViews_of_evalBindings` — adapters that have been run hold views of their arrays.
-/

namespace ArrayBridge.Erasure

/-- The code that adapts an array. -/
def adapterBinding (k : Kind) (array : Local) : Erased.Binding :=
  ⟨.object (.genericView k), .wrapAdapter k array⟩

namespace Placement

open Scope (Binds)

/-- The adapters on record are those of wrappers in scope: whatever stands for such a wrapper is
what its adapter adapts. -/
def AdaptersFit (p : Placement) : Prop :=
  ∀ a ∈ p.adapters, a.1 < p.scope.length ∧
    ∀ k e, p.scope.Binds a.1 (.wrapper k) e → p.bindings[a.2]? = some (adapterBinding k e)

variable {policy : AdapterPolicy} {p p' : Placement}

theorem adaptersFit_empty : empty.AdaptersFit := fun a ha => by simp [empty] at ha

/-- What has been placed keeps its number. -/
theorem Grows.getElem? {l : Local} {b : Erased.Binding} (h : p.Grows p')
    (hl : p.bindings[l]? = some b) : p'.bindings[l]? = some b := by
  obtain ⟨more, hmore⟩ := h.bindings
  rw [← hmore]
  exact getElem?_append_of_eq_some hl

/-- Code that leaves the record alone keeps it right. -/
theorem AdaptersFit.grows (hp : p.AdaptersFit) (h : p.Grows p')
    (hadapters : p'.adapters = p.adapters) : p'.AdaptersFit := by
  intro a ha
  rw [hadapters] at ha
  obtain ⟨hlt, hbound⟩ := hp a ha
  rw [h.scope]
  exact ⟨hlt, fun k e hbinds => h.getElem? (hbound k e hbinds)⟩

/-- What is used as the adapter of an array adapts it, and the record stays right. No code is placed
unless the adapter is made now. -/
theorem AdaptersFit.adapter (policy : AdapterPolicy) (source : ArraySource) (hp : p.AdaptersFit)
    (h : p.scope.Binds source.source (.wrapper source.kind) source.array) :
    (p.adapter policy source).2.AdaptersFit ∧
      (p.adapter policy source).2.bindings[(p.adapter policy source).1]? =
        some (adapterBinding source.kind source.array) ∧
      ((p.adapter policy source).2 = p ∨
        (p.adapter policy source).2.bindings =
          p.bindings ++ [adapterBinding source.kind source.array]) := by
  cases hmade : p.adapter? policy source.source with
  | some l =>
    -- one that was made before, of the same array by the invariant
    simp only [Placement.adapter, hmade]
    exact ⟨hp, (hp _ (mem_of_adapter? hmade)).2 _ _ h, .inl trivial⟩
  | none =>
    simp only [Placement.adapter, hmade]
    have hgrows := emit_grows p (.object (.genericView source.kind))
      (.wrapAdapter source.kind source.array)
    have hlast : (p.bindings ++ [adapterBinding source.kind source.array])[p.bindings.length]? =
        some (adapterBinding source.kind source.array) := List.getElem?_concat_length
    refine ⟨?_, hlast, .inr rfl⟩
    intro a ha
    rcases List.mem_append.mp ha with ha | ha
    · exact hp.grows hgrows rfl a ha
    · -- the new entry, whose wrapper is in scope
      obtain rfl := List.mem_singleton.mp ha
      obtain ⟨b, hb, ht, he⟩ := h
      refine ⟨(List.getElem?_eq_some_iff.mp hb).1, ?_⟩
      rintro k e ⟨c, hc, htc, hec⟩
      obtain rfl : b = c := Option.some.inj (hb.symm.trans hc)
      have hk : source.kind = k := by
        rw [ht] at htc
        injection htc
      rw [← hec, he, ← hk]
      exact hlast

/-- Putting a binding into scope keeps the record right. -/
theorem AdaptersFit.bound (hp : p.AdaptersFit) (b : Bound) :
    AdaptersFit { p with scope := p.scope ++ [b] } := by
  intro a ha
  obtain ⟨hlt, hbound⟩ := hp a ha
  have hlt' : a.1 < (p.scope ++ [b]).length := by
    rw [List.length_append]
    exact Nat.lt_add_right _ hlt
  refine ⟨hlt', ?_⟩
  rintro k e ⟨c, hc, ht, he⟩
  -- the wrapper is an old one
  have hc' : (p.scope ++ [b])[a.1]? = some c := hc
  rw [List.getElem?_append_left hlt] at hc'
  exact hbound k e ⟨c, hc', ht, he⟩

/-- No adapter is on record for the local that is about to be bound. -/
theorem AdaptersFit.adapter?_length (hp : p.AdaptersFit) :
    p.adapter? policy p.scope.length = none := by
  cases policy with
  | perUse => rfl
  | shared =>
    refine List.lookup_eq_none_iff.mpr fun a ha => ?_
    have hlt := (hp a ha).1
    exact bne_iff_ne.mpr (Nat.ne_of_gt hlt)

/-- A fresh array is placed, and then an adapter of its own, which stands for the binding. -/
theorem code_adaptFresh (policy : AdapterPolicy) (hp : p.AdaptersFit) (k : Kind)
    (array : Erased.Expr) :
    p.code policy (.adaptFresh k array) =
      (p.bindings.length + 1,
        ⟨p.bindings ++ [⟨.array k, array⟩, adapterBinding k p.bindings.length], p.scope,
          p.adapters ++ [(p.scope.length, p.bindings.length + 1)]⟩) := by
  have hnone : (p.emit (.array k) array).2.adapter? policy p.scope.length = none :=
    (hp.grows (emit_grows p _ array) rfl).adapter?_length
  simp only [emit] at hnone
  simp only [code, Placement.adapter, emit, hnone, List.length_append, List.length_singleton,
    List.append_assoc, List.singleton_append, adapterBinding]

/-- An array that is made as an object is placed with its adapter behind it. None can be on record
for the new local. -/
theorem place_adaptFresh (policy : AdapterPolicy) (hp : p.AdaptersFit) (b : Bridge.Binding)
    (k : Kind)
    (array : Erased.Expr) :
    p.place policy b (.adaptFresh k array) =
      ⟨p.bindings ++ [⟨.array k, array⟩, adapterBinding k p.bindings.length],
        p.scope ++ [⟨b, p.bindings.length + 1⟩],
        p.adapters ++ [(p.scope.length, p.bindings.length + 1)]⟩ := by
  rw [place, code_adaptFresh policy hp]

/-- Placing the plan of a binding keeps the record of adapters right. -/
theorem AdaptersFit.place {b : Bridge.Binding} {plan : Plan} (hp : p.AdaptersFit)
    (h : p.scope.Plans b.type b.expr plan) : (p.place policy b plan).AdaptersFit := by
  cases plan with
  | bind type expr => exact (hp.grows (emit_grows p type expr) rfl).bound _
  | use type q use =>
    -- an adapter first if the operand needs one, then the operation on it
    refine AdaptersFit.bound (p := ((p.generic policy q).2.emit type _).2) ?_ _
    refine AdaptersFit.grows ?_ (emit_grows (p.generic policy q).2 type _) rfl
    cases q with
    | plain l => exact hp
    | adapted source => exact (hp.adapter policy source (Scope.binds_of_source? h rfl)).1
  | adapt source => exact (hp.adapter policy source (Scope.binds_of_source? h rfl)).1.bound _
  | adaptFresh k array =>
    obtain ⟨d, hd⟩ := Scope.exists_object_of_adaptFresh h
    rw [place_adaptFresh policy hp]
    intro a ha
    rcases List.mem_append.mp ha with ha | ha
    · -- an old entry, whose adapter has kept its place
      obtain ⟨hlt, hbound⟩ := hp.bound ⟨b, p.bindings.length + 1⟩ a ha
      exact ⟨hlt, fun k' e hbinds => getElem?_append_of_eq_some (hbound k' e hbinds)⟩
    · -- the new local is declared as an object, so its entry is that of no wrapper
      obtain rfl := List.mem_singleton.mp ha
      refine ⟨by rw [List.length_append]; simp, ?_⟩
      rintro k' e ⟨c, hc, ht, -⟩
      have hc' : (p.scope ++ [⟨b, p.bindings.length + 1⟩])[p.scope.length]? = some c := hc
      rw [List.getElem?_concat_length] at hc'
      obtain rfl := Option.some.inj hc'
      rw [hd] at ht
      cases ht

/-- Erasing bindings keeps it right. -/
theorem AdaptersFit.eraseAll {bs : List Bridge.Binding} (hp : p.AdaptersFit)
    (h : p.eraseAll policy bs = .ok p') : p'.AdaptersFit := by
  induction bs generalizing p with
  | nil =>
    injection h with h
    exact h ▸ hp
  | cons b bs ih =>
    obtain ⟨p₁, hb, hrest⟩ := Check.bind_eq_ok.mp h
    refine ih ?_ hrest
    obtain ⟨plan, hplan, rfl⟩ := erase_eq_ok.mp hb
    exact hp.place (Scope.plans_of_plan hplan)

end Placement

end ArrayBridge.Erasure

/-! ## Views -/

namespace ArrayBridge.Erased

open ArrayBridge.Action (bind_eq_ok)

/-- Every adapter among the bindings holds a view of the array that it adapts. -/
def HoldsViews (bs : List Binding) (env : Env) : Prop :=
  ∀ (i : Local) (t : Ty) (k : Kind) (e : Local), bs[i]? = some ⟨t, .wrapAdapter k e⟩ →
    ∃ a : ArrayRef, a.kind = k ∧ env[e]? = some (.array a) ∧
      env[i]? = some (.sequence a.toSequence)

variable {bs : List Binding} {env env' : Env} {s s' : Store}

/-- Adapting an array gives a view of it and leaves the store alone, and nothing else can be
adapted. -/
theorem eval_wrapAdapter_eq_ok {k : Kind} {e : Local} {v : Value} :
    (Expr.wrapAdapter k e).eval env s = .ok v s' ↔
      (∃ a : ArrayRef, a.kind = k ∧ env[e]? = some (.array a) ∧ v = .sequence a.toSequence) ∧
        s' = s := by
  rw [Expr.eval_eq_ok]
  constructor
  · intro h
    cases h with
    | wrapAdapter ha =>
      obtain ⟨he, hk⟩ := Env.array_eq_ok.mp ha
      exact ⟨⟨_, hk, he, rfl⟩, rfl⟩
  · rintro ⟨⟨a, hk, he, rfl⟩, rfl⟩
    exact .wrapAdapter (Env.array_eq_ok.mpr ⟨he, hk⟩)

/-- Running one more binding keeps the adapters before it as they are. -/
theorem HoldsViews.concat {b : Binding} {v : Value} (h : HoldsViews bs env)
    (hlength : env.length = bs.length) (hv : b.expr.eval env s = .ok v s') :
    HoldsViews (bs ++ [b]) (env ++ [v]) := by
  intro i t k e hi
  rcases getElem?_concat_cases hi with ⟨-, hi⟩ | ⟨rfl, rfl⟩
  · obtain ⟨a, hk, he, hv'⟩ := h i t k e hi
    exact ⟨a, hk, getElem?_append_of_eq_some he, getElem?_append_of_eq_some hv'⟩
  · -- the added binding
    obtain ⟨⟨a, hk, he, rfl⟩, -⟩ := eval_wrapAdapter_eq_ok.mp hv
    refine ⟨a, hk, getElem?_append_of_eq_some he, ?_⟩
    rw [← hlength, List.getElem?_concat_length]

/-- Adapters that have been run hold views of their arrays. -/
theorem holdsViews_of_evalBindings (h : evalBindings [] bs s = .ok env s') :
    HoldsViews bs env := by
  -- along the run, from what has been run before
  have hrun : ∀ (rest before : List Binding) (env₀ : Env) (s₀ : Store), HoldsViews before env₀ →
      env₀.length = before.length → evalBindings env₀ rest s₀ = .ok env s' →
      HoldsViews (before ++ rest) env := by
    intro rest
    induction rest with
    | nil =>
      intro before env₀ s₀ hviews _ hnil
      injection hnil with henv
      rw [List.append_nil, ← henv]
      exact hviews
    | cons b rest ih =>
      intro before env₀ s₀ hviews hlength hcons
      obtain ⟨v, s₁, hv, hrest⟩ := bind_eq_ok.mp hcons
      rw [List.append_cons]
      exact ih _ _ _ (hviews.concat hlength hv) (by simp [hlength]) hrest
  exact hrun bs [] [] s (fun i t k e hi => by simp at hi) rfl h

end ArrayBridge.Erased
