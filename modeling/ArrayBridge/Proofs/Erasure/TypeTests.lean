import ArrayBridge.Proofs.Erased.Provenance
import ArrayBridge.Proofs.Erasure.Appending
import ArrayBridge.Proofs.Erasure.Policies

/-!
# Type tests on arrays

An array may be tested and asked for its type under many names: the wrapper itself, whose own class
is recognised without a test, aliases of it, and objects that stand for it. They all answer alike,
since each of them is seen as a view of the array. What a binding is bound to is read off its plan,
which knows nothing of adapters and of the policy.

Main results:

* `exists_eval_of_evalPlans` — a run of plans has evaluated each of them, with the values before it.
* `sees_of_reaches` — every name of an array holds the array, or a view of it.
* `Sees.eval_typeTest`, `Sees.eval_typeOf` — what such a name answers.
* `answersArrays_of_erase` — every test and every query of an array in an erased program.
-/

namespace ArrayBridge

open ArrayBridge.Erased (Value Env RunError Reified evalBindings)
open ArrayBridge.Action (bind_eq_ok)

/-! ## Types of values -/

namespace Erased

/-- A value is of every type that one of its types conforms to. -/
theorem Reified.isInstanceOf_of_conformsTo {r : Reified} {d d' : Descriptor}
    (h : r.isInstanceOf d = true) (hconforms : d.conformsTo d' = true) :
    r.isInstanceOf d' = true := by
  -- only `anything` has other types that conform to it, and it is the type of all values
  rcases Bool.or_eq_true_iff.mp hconforms with hd | hanything
  · exact of_decide_eq_true hd ▸ h
  · obtain rfl := of_decide_eq_true hanything
    cases r with
    | sequence q => cases q <;> simp [isInstanceOf, Sequence.isInstanceOf]
    | boxed b => exact Descriptor.conformsTo_anything _

/-- A value is of its own type. -/
theorem Reified.isInstanceOf_descriptor (r : Reified) : r.isInstanceOf r.descriptor = true := by
  cases r with
  | sequence q => cases q <;> simp [isInstanceOf, descriptor, Sequence.isInstanceOf]
  | boxed b => exact Descriptor.conformsTo_self _

/-- The types of a view: the class of the array, its generic sequence type, and `anything`. -/
theorem Reified.isInstanceOf_view (a : ArrayRef) (d : Descriptor) :
    (sequence a.toSequence).isInstanceOf d =
      decide (d = .primitiveArray a.kind ∨ d = .genericView a.kind ∨ d = .anything) := by
  show ((Descriptor.genericView a.kind).conformsTo d || decide (d = .primitiveArray a.kind)) = _
  rw [Bool.eq_iff_iff]
  simp only [Descriptor.conformsTo, Bool.or_eq_true, decide_eq_true_eq, eq_comm (a := d)]
  tauto

/-- A test gives an answer and changes nothing, -/
theorem Expr.eval_typeTest_eq_ok {env : Env} {s s' : Store} {l : Local} {d : Descriptor}
    {v : Value} :
    (Expr.typeTest l d).eval env s = .ok v s' ↔
      ∃ r, env.reified l = .ok r ∧ v = .prim (.boolean (r.isInstanceOf d)) ∧ s' = s := by
  rw [Expr.eval_eq_ok]
  constructor
  · intro h
    cases h with
    | typeTest hr => exact ⟨_, hr, rfl, rfl⟩
  · rintro ⟨r, hr, rfl, rfl⟩
    exact .typeTest hr

/-- and so does a query. -/
theorem Expr.eval_typeOf_eq_ok {env : Env} {s s' : Store} {l : Local} {v : Value} :
    (Expr.typeOf l).eval env s = .ok v s' ↔
      ∃ r, env.reified l = .ok r ∧ v = .descriptor r.descriptor ∧ s' = s := by
  rw [Expr.eval_eq_ok]
  constructor
  · intro h
    cases h with
    | typeOf hr => exact ⟨_, hr, rfl, rfl⟩
  · rintro ⟨r, hr, rfl, rfl⟩
    exact .typeOf hr

/-- Type tests go along with the types that values have. -/
structure TestsFollowTypes : Prop where
  /-- A test that is passed is passed for every type that the tested one conforms to. -/
  conforms : ∀ (env : Env) (l : Local) (d d' : Descriptor) (s s' : Store),
    (Expr.typeTest l d).eval env s = .ok (.prim (.boolean true)) s' → d.conformsTo d' = true →
    (Expr.typeTest l d').eval env s = .ok (.prim (.boolean true)) s'
  /-- A test for the type that a value says it is of is passed. -/
  own : ∀ (env : Env) (l : Local) (d : Descriptor) (s s' : Store),
    (Expr.typeOf l).eval env s = .ok (.descriptor d) s' →
    (Expr.typeTest l d).eval env s = .ok (.prim (.boolean true)) s'

/-- A value that is of a type is of every type that the first conforms to. -/
theorem testsFollowTypes : TestsFollowTypes where
  conforms env l d d' s s' h hconforms := by
    obtain ⟨r, hr, hv, rfl⟩ := Expr.eval_typeTest_eq_ok.mp h
    have hd : r.isInstanceOf d = true := by
      injection hv with hv
      injection hv with hv
      exact hv.symm
    refine Expr.eval_typeTest_eq_ok.mpr ⟨r, hr, ?_, rfl⟩
    rw [Reified.isInstanceOf_of_conformsTo hd hconforms]
  own env l d s s' h := by
    obtain ⟨r, hr, hv, rfl⟩ := Expr.eval_typeOf_eq_ok.mp h
    injection hv with hd
    refine Expr.eval_typeTest_eq_ok.mpr ⟨r, hr, ?_, rfl⟩
    rw [hd, r.isInstanceOf_descriptor]

end Erased

/-! ## Names of arrays -/

namespace Bridge

/-- Whether a local is a name of an array of a kind: the array is constructed, or copied from a
generic sequence, and may be handed on any number of times, as it is or as an object. -/
inductive Program.Reaches (p : Program) (k : Kind) : Local → Prop
  | construct {l size : Local} {t : Ty} {element : Option Local}
    (h : p.bindings[l]? = some ⟨t, .call k (.construct size element)⟩) : Reaches p k l
  | fromGenericView {l sequence : Local} {t : Ty}
    (h : p.bindings[l]? = some ⟨t, .call k (.fromGenericView sequence)⟩) : Reaches p k l
  | var {l source : Local} {t : Ty} (h : p.bindings[l]? = some ⟨t, .var source⟩)
    (hsource : Reaches p k source) : Reaches p k l
  | toGenericView {l array : Local} {t : Ty}
    (h : p.bindings[l]? = some ⟨t, .call k (.toGenericView array)⟩)
    (harray : Reaches p k array) : Reaches p k l

/-- Whether a binding answers with a value in every run: the erased program binds it to the value
unless the bindings before it fail. They do not depend on what they are to return, so that their
program may return the operand of the binding. -/
def Program.Answers (policy : AdapterPolicy) (p : Program) (binding operand : Local)
    (v : Value) : Prop :=
  ∃ before e, erase policy ⟨p.bindings.take binding, operand⟩ = .ok before ∧
    erase policy ⟨p.bindings, binding⟩ = .ok e ∧
    ((∃ error s, before.run = .error error s) ∨ e.boundValues[e.result]? = some v)

/-- Whether the tests and queries of arrays in a program are answered by the arrays alone. -/
structure Program.AnswersArrays (policy : AdapterPolicy) (p : Program) : Prop where
  /-- An array is of its own class, of the sequence type of its boxed elements, and `anything`. -/
  typeTest : ∀ binding l t k d, p.bindings[binding]? = some ⟨t, .typeTest l d⟩ → p.Reaches k l →
    p.Answers policy binding l (.prim (.boolean
      (decide (d = .primitiveArray k ∨ d = .genericView k ∨ d = .anything))))
  /-- It says that it is of that sequence type. -/
  typeOf : ∀ binding l t k, p.bindings[binding]? = some ⟨t, .typeOf l⟩ → p.Reaches k l →
    p.Answers policy binding l (.descriptor (.genericView k))

end Bridge

namespace Erasure

open Bridge (Declares)

variable {policy : AdapterPolicy} {p : Bridge.Program} {bs : List Bridge.Binding}
  {plans : List Planned} {values values' : Env} {s s' : Store} {k : Kind} {l : Local}

/-! ## Plans one after another -/

/-- Plans are evaluated part by part. -/
theorem evalPlans_append (values : Env) (first second : List Planned) :
    evalPlans values (first ++ second) =
      evalPlans values first >>= fun values => evalPlans values second := by
  induction first generalizing values with
  | nil => rfl
  | cons c first ih =>
    show (c.plan.eval values >>= fun v => evalPlans (values ++ [v]) (first ++ second)) =
      (c.plan.eval values >>= fun v => evalPlans (values ++ [v]) first) >>= _
    rw [bind_assoc]
    exact congrArg _ (funext fun v => ih _)

/-- Each plan adds one value. -/
theorem prefix_of_evalPlans (h : evalPlans values plans s = .ok values' s') :
    values <+: values' ∧ values'.length = values.length + plans.length := by
  induction plans generalizing values s with
  | nil =>
    injection h with h
    exact h ▸ ⟨List.prefix_refl values, rfl⟩
  | cons c plans ih =>
    obtain ⟨v, s₁, -, hrest⟩ := bind_eq_ok.mp h
    obtain ⟨hbegin, hlength⟩ := ih hrest
    refine ⟨(List.prefix_append values [v]).trans hbegin, ?_⟩
    rw [hlength, List.length_append, List.length_singleton, List.length_cons]
    omega

theorem length_of_evalPlans (hplans : planAll [] bs = .ok plans)
    (h : evalPlans [] plans s = .ok values s') : values.length = bs.length := by
  rw [(prefix_of_evalPlans h).2, ← map_binding_of_planAll hplans, List.length_map]
  exact Nat.zero_add _

/-- A run of plans has evaluated each of them, with the values of the bindings before it. -/
theorem exists_eval_of_evalPlans (hplans : planAll [] bs = .ok plans)
    (h : evalPlans [] plans s = .ok values s') {b : Bridge.Binding} (hb : bs[l]? = some b) :
    ∃ first values₀ s₀ plan v s₁, planAll [] (bs.take l) = .ok first ∧
      evalPlans [] first s = .ok values₀ s₀ ∧
      (Scope.direct (bs.take l)).plan b.type b.expr = .ok plan ∧
      plan.eval values₀ s₀ = .ok v s₁ ∧ values[l]? = some v := by
  obtain ⟨first, plan, second, hfirst, hplan, rfl⟩ := exists_plan_of_planAll hplans hb
  rw [evalPlans_append] at h
  obtain ⟨values₀, s₀, hvalues₀, hrest⟩ := bind_eq_ok.mp h
  obtain ⟨v, s₁, hv, hafter⟩ := bind_eq_ok.mp hrest
  have hlength : values₀.length = l := by
    rw [length_of_evalPlans hfirst hvalues₀]
    exact List.length_take_of_le (Nat.le_of_lt (List.getElem?_eq_some_iff.mp hb).1)
  obtain ⟨more, rfl⟩ := (prefix_of_evalPlans hafter).1
  refine ⟨first, values₀, s₀, plan, v, s₁, hfirst, hvalues₀, hplan, hv, ?_⟩
  rw [← hlength]
  exact getElem?_append_of_eq_some List.getElem?_concat_length

/-- The same of a run of the first bindings only: the plan of a binding among them has been made and
evaluated after those before it. -/
theorem exists_eval_of_take {n : Nat} (hplans : planAll [] (bs.take n) = .ok plans)
    (h : evalPlans [] plans s = .ok values s') {b : Bridge.Binding} (hb : bs[l]? = some b)
    (hl : l < n) :
    Declares (bs.take n) l b.type ∧
      ∃ first values₀ s₀ plan v s₁, planAll [] (bs.take l) = .ok first ∧
        evalPlans [] first s = .ok values₀ s₀ ∧
        (Scope.direct (bs.take l)).Plans b.type b.expr plan ∧
        plan.eval values₀ s₀ = .ok v s₁ ∧ values[l]? = some v := by
  have hb' : (bs.take n)[l]? = some b := (List.getElem?_take_of_lt hl).trans hb
  obtain ⟨first, values₀, s₀, plan, v, s₁, hfirst, hvalues₀, hplan, hv, hat⟩ :=
    exists_eval_of_evalPlans hplans h hb'
  rw [List.take_take, Nat.min_eq_left (Nat.le_of_lt hl)] at hfirst hplan
  exact ⟨⟨b, hb', rfl⟩, first, values₀, s₀, plan, v, s₁, hfirst, hvalues₀,
    Scope.plans_of_plan hplan, hv, hat⟩

/-! ## What names of arrays hold -/

/-- What a name of an array holds: the array, or a view of it where it is declared as an object. -/
inductive Sees (bs : List Bridge.Binding) (values : Env) (k : Kind) (l : Local) : Prop
  | array {a : ArrayRef} (ht : Declares bs l (.wrapper k)) (hk : a.kind = k)
    (hv : values[l]? = some (.array a))
  | view {a : ArrayRef} {d : Descriptor} (ht : Declares bs l (.object d)) (hk : a.kind = k)
    (hv : values[l]? = some (.sequence a.toSequence))

theorem lt_of_declares_take {n : Nat} {t : Bridge.Ty} (h : Declares (bs.take n) l t) : l < n := by
  obtain ⟨b, hb, -⟩ := h
  exact Nat.lt_of_lt_of_le (List.getElem?_eq_some_iff.mp hb).1 (List.length_take_le ..)

/-- A local is declared once. -/
theorem declares_unique {t u : Bridge.Ty} (h : Declares bs l t) (h' : Declares bs l u) : t = u := by
  obtain ⟨b, hb, rfl⟩ := h
  obtain ⟨c, hc, rfl⟩ := h'
  obtain rfl := Option.some.inj (hb.symm.trans hc)
  rfl

/-- Where a generic value is demanded of it, a name of an array is seen as a view. -/
theorem Sees.eval_generic {t : Bridge.Ty} {q : Generic} (h : Sees bs values k l)
    (hq : (Scope.direct bs).Stands l t q) :
    ∃ a : ArrayRef, a.kind = k ∧ ∀ s, q.eval values s = .ok (.sequence a.toSequence) s := by
  cases hq with
  | adapted hbinds =>
    obtain ⟨ht', rfl⟩ := Scope.binds_direct_iff.mp hbinds
    cases h with
    | array ht hk hv =>
      obtain rfl := Bridge.Ty.wrapper.inj (declares_unique ht ht')
      exact ⟨_, hk, fun s => Erased.eval_wrapAdapter_eq_ok.mpr ⟨⟨_, hk, hv, rfl⟩, rfl⟩⟩
    | view ht => cases declares_unique ht ht'
  | plain hbinds hne =>
    obtain ⟨ht', rfl⟩ := Scope.binds_direct_iff.mp hbinds
    cases h with
    | array ht => exact absurd (declares_unique ht' ht) (hne k)
    | view ht hk hv =>
      exact ⟨_, hk, fun s => Action.lift_eq_ok.mpr ⟨Erased.Env.value_eq_ok.mpr hv, rfl⟩⟩

/-- A construction gives an array of its kind. -/
theorem Scope.ConstructsArray.exists_array {scope : Scope} {size : Local} {element : Option Local}
    {array : Erased.Expr} {v : Value} (h : scope.ConstructsArray k size element array)
    (hv : array.eval values s = .ok v s') : ∃ a : ArrayRef, v = .array a ∧ a.kind = k := by
  have hhead : v.head = .array k := by
    cases h <;> exact Erased.Expr.head_eq_of_eval hv rfl
  exact Value.exists_array_of_head hhead

/-- Every name of an array holds the array, or a view of it, by induction on how it is handed on. -/
theorem sees_of_reaches {n : Nat} (hreaches : p.Reaches k l)
    (hplans : planAll [] (p.bindings.take n) = .ok plans)
    (h : evalPlans [] plans s = .ok values s') (hl : l < n) :
    Sees (p.bindings.take n) values k l := by
  induction hreaches generalizing n plans values s' with
  | construct hb =>
    obtain ⟨ht, -, values₀, s₀, plan, v, s₁, -, -, hplan, hv, hat⟩ :=
      exists_eval_of_take hplans h hb hl
    cases hplan with
    | construct hconstructs =>
      obtain ⟨a, rfl, hk⟩ := hconstructs.exists_array hv
      exact .array ht hk hat
    | constructView hconstructs =>
      -- the fresh array is adapted right away
      obtain ⟨w, s₂, hw, hv⟩ := bind_eq_ok.mp hv
      obtain ⟨⟨a, hk, -, rfl⟩, -⟩ := Erased.eval_wrapAdapter_eq_ok.mp hv
      exact .view ht hk hat
  | fromGenericView hb =>
    obtain ⟨ht, -, values₀, s₀, plan, v, s₁, -, -, hplan, hv, hat⟩ :=
      exists_eval_of_take hplans h hb hl
    cases hplan with
    | fromGenericView hq =>
      -- the copy is an array of its own, whatever it is copied from
      obtain ⟨w, s₂, -, hv⟩ := bind_eq_ok.mp hv
      obtain ⟨a, rfl, hk⟩ := Value.exists_array_of_head (Erased.Expr.head_eq_of_eval hv rfl)
      exact .array ht hk hat
  | @var l source t hb _ ih =>
    obtain ⟨ht, first, values₀, s₀, plan, v, s₁, hfirst, hvalues₀, hplan, hv, hat⟩ :=
      exists_eval_of_take hplans h hb hl
    cases hplan with
    | var hbinds =>
      -- an alias, of the type that the name is declared at
      obtain ⟨ht', rfl⟩ := Scope.binds_direct_iff.mp hbinds
      have hvalue := Erased.Env.value_eq_ok.mp (Action.lift_eq_ok.mp hv).1
      cases ih hfirst hvalues₀ (lt_of_declares_take ht') with
      | array hsource hk hw =>
        obtain rfl := declares_unique hsource ht'
        obtain rfl := Option.some.inj (hw.symm.trans hvalue)
        exact .array ht hk hat
      | view hsource hk hw =>
        obtain rfl := declares_unique hsource ht'
        obtain rfl := Option.some.inj (hw.symm.trans hvalue)
        exact .view ht hk hat
    | view hbinds =>
      -- a wrapper that is bound at an object type is adapted there
      have hlt := lt_of_declares_take (Scope.binds_direct_iff.mp hbinds).1
      obtain ⟨a, hk, heval⟩ := (ih hfirst hvalues₀ hlt).eval_generic (.adapted hbinds)
      obtain ⟨rfl, -⟩ := EStateM.Result.ok.inj (hv.symm.trans (heval s₀))
      exact .view ht hk hat
  | @toGenericView l array t hb _ ih =>
    obtain ⟨ht, first, values₀, s₀, plan, v, s₁, hfirst, hvalues₀, hplan, hv, hat⟩ :=
      exists_eval_of_take hplans h hb hl
    cases hplan with
    | toGenericView hbinds =>
      have hlt := lt_of_declares_take (Scope.binds_direct_iff.mp hbinds).1
      obtain ⟨a, hk, heval⟩ := (ih hfirst hvalues₀ hlt).eval_generic (.adapted hbinds)
      obtain ⟨rfl, -⟩ := EStateM.Result.ok.inj (hv.symm.trans (heval s₀))
      exact .view ht hk hat

/-! ## What names of arrays answer -/

/-- A test of a name of an array ends, and its answer depends on the kind of the array alone. -/
theorem Sees.eval_typeTest {t : Bridge.Ty} {d : Descriptor} {plan : Plan} (h : Sees bs values k l)
    (hplan : (Scope.direct bs).Plans t (.typeTest l d) plan) (s : Store) :
    plan.eval values s = .ok (.prim (.boolean
      (decide (d = .primitiveArray k ∨ d = .genericView k ∨ d = .anything)))) s := by
  cases hplan with
  | staticTest hbinds =>
    -- the class of the wrapper is that of the array
    obtain ⟨ht, -⟩ := Scope.binds_direct_iff.mp hbinds
    cases h with
    | array ht' =>
      obtain rfl := Bridge.Ty.wrapper.inj (declares_unique ht ht')
      simp only [true_or, decide_true]
      rfl
    | view ht' => cases declares_unique ht ht'
  | typeTest hq =>
    obtain ⟨a, rfl, heval⟩ := h.eval_generic hq
    refine bind_eq_ok.mpr ⟨_, s, heval s, Erased.Expr.eval_typeTest_eq_ok.mpr
      ⟨.sequence a.toSequence, ?_, ?_, rfl⟩⟩
    · exact Erased.Env.operand_eq_ok.mpr ⟨_, List.getElem?_concat_length, rfl⟩
    · rw [Reified.isInstanceOf_view]

/-- So does a query of its type. -/
theorem Sees.eval_typeOf {t : Bridge.Ty} {plan : Plan} (h : Sees bs values k l)
    (hplan : (Scope.direct bs).Plans t (.typeOf l) plan) (s : Store) :
    plan.eval values s = .ok (.descriptor (.genericView k)) s := by
  cases hplan with
  | typeOf hq =>
    obtain ⟨a, rfl, heval⟩ := h.eval_generic hq
    refine bind_eq_ok.mpr ⟨_, s, heval s, Erased.Expr.eval_typeOf_eq_ok.mpr
      ⟨.sequence a.toSequence, ?_, ?_, rfl⟩⟩
    · exact Erased.Env.operand_eq_ok.mpr ⟨_, List.getElem?_concat_length, rfl⟩
    · rfl

/-! ## Answers in erased programs -/

/-- What a run of the first plans has found for a local, the erased program binds to what stands for
it, whatever comes after these plans. -/
theorem boundValues_assemble (policy : AdapterPolicy) (more : List Planned) {v : Value}
    (hplans : planAll [] bs = .ok plans) (h : evalPlans [] plans .empty = .ok values s)
    (hv : values[l]? = some v) :
    (assemble policy l (plans ++ more)).boundValues[(assemble policy l (plans ++ more)).result]? =
      some v := by
  have hsame := Placement.Carries.run_placeAll policy hplans
  rw [h] at hsame
  obtain ⟨env, hend, hcarries⟩ := hsame.exists_of_ok
  obtain ⟨c, hc⟩ : ∃ c, (Placement.empty.placeAll policy plans).scope[l]? = some c :=
    ⟨_, List.getElem?_eq_getElem (hcarries.count ▸ (List.getElem?_eq_some_iff.mp hv).1)⟩
  obtain ⟨w, hw, hheld⟩ := hcarries.scope l c hc
  obtain rfl := Option.some.inj (hv.symm.trans hw)
  -- what has been placed and bound by then stays where it is
  obtain ⟨code, hcode⟩ :=
    Placement.prefix_placeAll policy (Placement.empty.placeAll policy plans) more
  obtain ⟨others, hothers⟩ :=
    Placement.scope_prefix_placeAll policy (Placement.empty.placeAll policy plans) more
  have hresult : (assemble policy l (plans ++ more)).result = c.erased := by
    rw [assemble, Placement.placeAll_append, ← hothers]
    exact Scope.standsFor_of_getElem? (getElem?_append_of_eq_some hc)
  have hbound : env <+: (assemble policy l (plans ++ more)).boundValues := by
    rw [Erased.Program.boundValues, assemble, Placement.placeAll_append, ← hcode,
      Erased.boundValues_append code hend]
    exact Erased.prefix_boundValues ..
  obtain ⟨rest, hrest⟩ := hbound
  rw [hresult, ← hrest]
  exact getElem?_append_of_eq_some hheld

/-- If the plan of a binding gives a value in every run that gets to it, then the erased program
answers with the value there. -/
theorem answers_of_eval {i : Local} {b : Bridge.Binding} {v : Value}
    (hplans : planAll [] p.bindings = .ok plans) (hb : p.bindings[i]? = some b) (hl : l < i)
    (hvalue : ∀ {first values s plan}, planAll [] (p.bindings.take i) = .ok first →
      evalPlans [] first .empty = .ok values s →
      (Scope.direct (p.bindings.take i)).Plans b.type b.expr plan →
      plan.eval values s = .ok v s) : p.Answers policy i l v := by
  have hi : i < p.bindings.length := (List.getElem?_eq_some_iff.mp hb).1
  have hcount : (p.bindings.take i).length = i := List.length_take_of_le (Nat.le_of_lt hi)
  obtain ⟨first, plan, second, hfirst, hplan, rfl⟩ := exists_plan_of_planAll hplans hb
  -- the program of the bindings before, and the one that returns the binding
  have hlt : l < (p.bindings.take i).length := hcount.symm ▸ hl
  refine ⟨assemble policy l first, assemble policy i (first ++ ⟨b, plan⟩ :: second),
    erase_eq_ok_iff.mpr ⟨first, hfirst, hlt, rfl⟩, erase_eq_ok_iff.mpr ⟨_, hplans, hi, rfl⟩, ?_⟩
  cases hrun : evalPlans [] first .empty with
  | error error s =>
    -- the bindings before fail, with adapters as without them
    have hsame := Placement.Carries.run_placeAll policy hfirst
    rw [hrun] at hsame
    obtain ⟨error', hfail⟩ := hsame.exists_of_error
    exact .inl ⟨error', s, Action.bind_of_error hfail⟩
  | ok values s =>
    -- the plan of the binding is evaluated next
    have hfirst' : planAll [] (p.bindings.take i ++ [b]) = .ok (first ++ [⟨b, plan⟩]) :=
      planAll_append_eq_ok.mpr
        ⟨_, _, hfirst, planAll_cons_eq_ok.mpr ⟨plan, [], hplan, rfl, rfl⟩, rfl⟩
    have hrun' : evalPlans [] (first ++ [⟨b, plan⟩]) .empty = .ok (values ++ [v]) s := by
      rw [evalPlans_append, Action.bind_of_ok hrun]
      exact Action.bind_of_ok (hvalue hfirst hrun (Scope.plans_of_plan hplan))
    have hv : (values ++ [v])[i]? = some v := by
      rw [← hcount, ← length_of_evalPlans hfirst hrun, List.getElem?_concat_length]
    rw [List.append_cons]
    exact .inr (boundValues_assemble policy second hfirst' hrun' hv)

/-- The operand of a test or a query is bound before it. -/
theorem lt_of_reified {i : Local} {b : Bridge.Binding} (hplans : planAll [] p.bindings = .ok plans)
    (hb : p.bindings[i]? = some b) (hexpr : (∃ d, b.expr = .typeTest l d) ∨ b.expr = .typeOf l) :
    l < i := by
  obtain ⟨-, plan, -, -, hplan, -⟩ := exists_plan_of_planAll hplans hb
  obtain ⟨t, expr⟩ := b
  have hplan : (Scope.direct (p.bindings.take i)).Plans t expr plan := Scope.plans_of_plan hplan
  rcases hexpr with ⟨d, rfl⟩ | rfl
  · cases hplan with
    | staticTest hbinds => exact lt_of_declares_take (Scope.binds_direct_iff.mp hbinds).1
    | typeTest hq => exact lt_of_declares_take (Scope.binds_direct_iff.mp hq.binds).1
  · cases hplan with
    | typeOf hq => exact lt_of_declares_take (Scope.binds_direct_iff.mp hq.binds).1

end Erasure

namespace Bridge.Program

open Erasure

/-- Tests and queries of arrays in an accepted program are answered by the arrays alone, under
either policy, and type tests go along with the types that values have. -/
theorem answersArrays_of_erase {policy' : AdapterPolicy} {p : Program} {accepted : Erased.Program}
    (policy : AdapterPolicy) (haccepted : p.erase policy' = .ok accepted) :
    p.AnswersArrays policy ∧ Erased.TestsFollowTypes := by
  obtain ⟨plans, hplans, -, -⟩ := erase_eq_ok_iff.mp haccepted
  refine ⟨⟨?_, ?_⟩, Erased.testsFollowTypes⟩
  · intro binding l t k d hb hreaches
    have hl := lt_of_reified hplans hb (.inl ⟨d, rfl⟩)
    exact answers_of_eval hplans hb hl fun hfirst hrun hplan =>
      (sees_of_reaches hreaches hfirst hrun hl).eval_typeTest hplan _
  · intro binding l t k hb hreaches
    have hl := lt_of_reified hplans hb (.inr rfl)
    exact answers_of_eval hplans hb hl fun hfirst hrun hplan =>
      (sees_of_reaches hreaches hfirst hrun hl).eval_typeOf hplan _

/-- An array of integers that is handed on as an object passes for a sequence of short integers,
which are boxed alike, but not for an array of them. -/
theorem answersArrays_of_erase_object :
    ∃ (p : Program) (accepted : Erased.Program), p.erase .shared = .ok accepted ∧ p.Reaches .int 2 ∧
      p.bindings[3]? = some ⟨.prim .boolean, .typeTest 2 (.genericView .short)⟩ ∧
      p.Answers .perUse 3 2 (.prim (.boolean true)) ∧
      p.bindings[4]? = some ⟨.prim .boolean, .typeTest 2 (.primitiveArray .short)⟩ ∧
      p.Answers .perUse 4 2 (.prim (.boolean false)) := by
  let p : Program :=
    ⟨[⟨.integer, .intLit 1⟩, ⟨.wrapper .int, .call .int (.construct 0 none)⟩,
      ⟨.object .anything, .var 1⟩, ⟨.prim .boolean, .typeTest 2 (.genericView .short)⟩,
      ⟨.prim .boolean, .typeTest 2 (.primitiveArray .short)⟩], 4⟩
  let accepted : Erased.Program :=
    ⟨[⟨.integer, .intLit 1⟩, ⟨.array .int, .newArray .int 0⟩,
      ⟨.object (.genericView .int), .wrapAdapter .int 1⟩,
      ⟨.prim .boolean, .typeTest 2 (.genericView .short)⟩,
      ⟨.prim .boolean, .typeTest 2 (.primitiveArray .short)⟩], 4⟩
  have haccepted : p.erase .shared = .ok accepted := rfl
  have hreaches : p.Reaches .int 2 := .var rfl (.construct rfl)
  have htests := (answersArrays_of_erase .perUse haccepted).1.typeTest
  refine ⟨p, accepted, haccepted, hreaches, rfl, ?_, rfl, ?_⟩
  · have hyes := htests 3 2 _ .int (.genericView .short) rfl hreaches
    rwa [decide_eq_true (.inr (.inl rfl))] at hyes
  · have hno := htests 4 2 _ .int (.primitiveArray .short) rfl hreaches
    rwa [decide_eq_false (by rintro (h | h | h) <;> cases h)] at hno

end Bridge.Program

end ArrayBridge
