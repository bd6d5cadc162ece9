import ArrayBridge.Proofs.Erasure.Planning

/-!
# Where a program demands arrays as generic values

Whether a binding demands an array as a generic value can be read off the bridge program: it is
decided by the form of the binding and by what its operand is declared as. A plan adapts an array
exactly where the binding demands one.

Main results:

* `demanded?_of_plan` — what a plan adapts is what the binding demands.
* `mem_source_firstDemands`, `nodup_source_firstDemands` — the first demands are one for each array
  of which there is a demand.
-/

namespace ArrayBridge

namespace Bridge

/-! ## Demands -/

/-- A use of an array as a generic value: the binding that makes it, and the binding that is
declared as the wrapper of the array. A wrapper that is constructed at an object type is its own. -/
structure GenericDemand where
  binding : Local
  source : Local
  kind : Kind
deriving DecidableEq, Repr

/-- An operand that is declared as a wrapper, with the kind of its arrays. -/
def wrapper? (before : List Binding) (l : Local) : Option (Local × Kind) :=
  match before[l]?.map Binding.type with
  | some (.wrapper k) => some (l, k)
  | _ => none

/-- The array of which a binding demands a generic value, given the bindings before it: the binding
that is declared as its wrapper, and its kind. -/
def demanded? (before : List Binding) (b : Binding) : Option (Local × Kind) :=
  match b.expr with
  | .var l => if b.type.isObject then wrapper? before l else none
  | .call k (.construct ..) => if b.type.isObject then some (before.length, k) else none
  | .call _ (.toGenericView l) | .call _ (.fromGenericView l) | .genericSize l
  | .genericGet l _ | .genericSet l _ _ | .typeOf l => wrapper? before l
  -- that a wrapper is of the class of its own arrays is known without looking at it
  | .typeTest l d => (wrapper? before l).filter fun (_, k) => d ≠ .primitiveArray k
  | _ => none

/-- The demand that a binding makes. -/
def demand? (before : List Binding) (b : Binding) : Option GenericDemand :=
  (demanded? before b).map fun (source, kind) => ⟨before.length, source, kind⟩

/-- The demands of bindings that follow others, in order. -/
def demandsFrom (before : List Binding) : List Binding → List GenericDemand
  | [] => []
  | b :: rest => (demand? before b).toList ++ demandsFrom (before ++ [b]) rest

/-- The demands of a program, in order. -/
def Program.demands (p : Program) : List GenericDemand := demandsFrom [] p.bindings

/-- The first demand of each array. -/
def firstDemands : List GenericDemand → List GenericDemand
  | [] => []
  | d :: ds => d :: (firstDemands ds).filter fun d' => d'.source ≠ d.source

theorem demandsFrom_concat (before bs : List Binding) (b : Binding) :
    demandsFrom before (bs ++ [b]) =
      demandsFrom before bs ++ (demand? (before ++ bs) b).toList := by
  induction bs generalizing before with
  | nil => simp [demandsFrom]
  | cons c bs ih => simp [demandsFrom, ih]

/-- A demand is made by the binding that it names. -/
theorem binding_of_demand? {before : List Binding} {b : Binding} {d : GenericDemand}
    (h : demand? before b = some d) : d.binding = before.length := by
  obtain ⟨array, -, rfl⟩ := Option.map_eq_some_iff.mp h
  rfl

/-- Demands are found at their own bindings. -/
theorem le_binding_of_mem {before bs : List Binding} {d : GenericDemand}
    (h : d ∈ demandsFrom before bs) : before.length ≤ d.binding := by
  induction bs generalizing before with
  | nil => cases h
  | cons b bs ih =>
    rcases List.mem_append.mp h with h | h
    · exact Nat.le_of_eq (binding_of_demand? (Option.mem_toList.mp h)).symm
    · have hle := ih h
      rw [List.length_append] at hle
      exact Nat.le_of_add_right_le hle

/-- Demands are listed in the order of the bindings that make them. -/
theorem pairwise_demandsFrom (before bs : List Binding) :
    (demandsFrom before bs).Pairwise fun d d' => d.binding ≤ d'.binding := by
  induction bs generalizing before with
  | nil => exact .nil
  | cons b bs ih =>
    rw [demandsFrom, List.pairwise_append]
    refine ⟨?_, ih _, fun d hd d' hd' => ?_⟩
    -- a binding makes one demand at most, and those that follow make theirs later
    · cases demand? before b <;> simp
    · rw [binding_of_demand? (Option.mem_toList.mp hd)]
      have hle := le_binding_of_mem hd'
      rw [List.length_append] at hle
      exact Nat.le_of_add_right_le hle

/-! ### First demands -/

/-- An array has a first demand exactly if it has one. -/
theorem mem_source_firstDemands {ds : List GenericDemand} {l : Local} :
    l ∈ (firstDemands ds).map GenericDemand.source ↔ l ∈ ds.map GenericDemand.source := by
  induction ds with
  | nil => rfl
  | cons d ds ih =>
    by_cases hl : l = d.source
    · simp [firstDemands, hl]
    · -- a demand on another source is not dropped
      have hne : ∀ d' : GenericDemand, d'.source = l → d'.source ≠ d.source :=
        fun d' hd' h => hl (hd'.symm.trans h)
      simp only [List.mem_map] at ih
      simp only [firstDemands, List.map_cons, List.mem_cons, hl, false_or, List.mem_map,
        List.mem_filter, decide_eq_true_eq, ← ih]
      constructor
      · rintro ⟨d', ⟨hd', -⟩, h⟩
        exact ⟨d', hd', h⟩
      · rintro ⟨d', hd', h⟩
        exact ⟨d', ⟨hd', hne d' h⟩, h⟩

/-- No demand of an array is made before its first one. -/
theorem le_binding_of_mem_firstDemands {ds : List GenericDemand} {d d' : GenericDemand}
    (hordered : ds.Pairwise fun d d' => d.binding ≤ d'.binding) (hd : d ∈ firstDemands ds)
    (hd' : d' ∈ ds) (hsource : d'.source = d.source) : d.binding ≤ d'.binding := by
  induction ds with
  | nil => cases hd
  | cons c ds ih =>
    obtain ⟨hle, hrest⟩ := List.pairwise_cons.mp hordered
    rcases List.mem_cons.mp hd with rfl | hd
    · rcases List.mem_cons.mp hd' with rfl | hd'
      · exact Nat.le_refl _
      · exact hle d' hd'
    · obtain ⟨hd, hne⟩ := List.mem_filter.mp hd
      rcases List.mem_cons.mp hd' with rfl | hd'
      · exact absurd hsource.symm (of_decide_eq_true hne)
      · exact ih hrest hd hd'

/-- An array has only one first demand. -/
theorem nodup_source_firstDemands (ds : List GenericDemand) :
    ((firstDemands ds).map GenericDemand.source).Nodup := by
  induction ds with
  | nil => exact List.nodup_nil
  | cons d ds ih =>
    rw [firstDemands, List.map_cons, List.nodup_cons]
    refine ⟨fun h => ?_, ih.sublist (List.filter_sublist.map _)⟩
    obtain ⟨d', hd', heq⟩ := List.mem_map.mp h
    exact of_decide_eq_true (List.mem_filter.mp hd').2 heq

/-- One more demand is a first one if there is none before it of the same array. -/
theorem firstDemands_concat (ds : List GenericDemand) (d : GenericDemand) :
    firstDemands (ds ++ [d]) =
      if d.source ∈ ds.map GenericDemand.source then firstDemands ds
      else firstDemands ds ++ [d] := by
  induction ds with
  | nil => rfl
  | cons c ds ih =>
    rw [List.cons_append, firstDemands, ih, firstDemands, List.map_cons]
    by_cases hmem : d.source ∈ ds.map GenericDemand.source
    · rw [if_pos hmem, if_pos (List.mem_cons_of_mem _ hmem)]
    · -- it is a first demand among the later ones, unless the head is one of the same array
      rw [if_neg hmem, List.filter_append]
      by_cases hc : d.source = c.source
      · rw [if_pos (hc ▸ List.mem_cons_self)]
        simp [hc]
      · rw [if_neg (by simpa [hc] using hmem)]
        simp [hc]

end Bridge

/-! ## Demands of plans -/

namespace Erasure

open Bridge (GenericDemand demand? demanded? wrapper?)

/-- The array that a generic operand adapts. -/
def Generic.demanded? : Generic → Option (Local × Kind)
  | plain _ => none
  | adapted source => some (source.source, source.kind)

/-- The array that the plan of a binding adapts. -/
def Plan.demanded? (binding : Local) : Plan → Option (Local × Kind)
  | .bind .. => none
  | .use _ q _ => q.demanded?
  | .adapt source => some (source.source, source.kind)
  | .adaptFresh k _ => some (binding, k)

namespace Scope

variable {scope : Scope} {l e : Local} {t : Bridge.Ty}

/-- A local that is bound at a wrapper type is an array to adapt, -/
theorem wrapper?_of_binds {k : Kind} (h : scope.Binds l (.wrapper k) e) :
    wrapper? (scope.map Bound.binding) l = some (l, k) := by
  obtain ⟨b, hb, ht, -⟩ := h
  simp only [wrapper?, List.getElem?_map, hb, Option.map_some, ht]

/-- and any other is none. -/
theorem wrapper?_of_ne (h : scope.Binds l t e) (ht : ∀ k, t ≠ .wrapper k) :
    wrapper? (scope.map Bound.binding) l = none := by
  obtain ⟨b, hb, rfl, -⟩ := h
  simp only [wrapper?, List.getElem?_map, hb, Option.map_some]
  split
  · rename_i k hk
    exact absurd (Option.some.inj hk) (ht k)
  · rfl

/-- An operand is adapted exactly if it is a wrapper. -/
theorem Stands.wrapper? {q : Generic} (h : scope.Stands l t q) :
    wrapper? (scope.map Bound.binding) l = q.demanded? := by
  cases h with
  | adapted h => exact wrapper?_of_binds h
  | plain h ht => exact wrapper?_of_ne h ht

/-- A test demands an array unless it is one against the class of the array. -/
theorem demanded?_typeTest_of_plan {d : Descriptor} {plan : Plan}
    (h : scope.plan t (.typeTest l d) = .ok plan) :
    demanded? (scope.map Bound.binding) ⟨t, .typeTest l d⟩ = plan.demanded? scope.length := by
  -- `Plans` does not say that a test which reads its operand is not static, so the plan is opened
  simp only [Scope.plan, Check.bind_eq_ok, checkResult_eq_ok, exists_const, bound_eq_ok] at h
  obtain ⟨-, b, hb, h⟩ := h
  show (Bridge.wrapper? (scope.map Bound.binding) l).filter _ = _
  by_cases hstatic : testIsStatic b.binding.type d = true
  · rw [if_pos hstatic, Check.pure_eq_ok] at h
    obtain ⟨k, hk, rfl⟩ := testIsStatic_iff.mp hstatic
    rw [wrapper?_of_binds ⟨b, hb, hk, rfl⟩, ← h]
    simp [Plan.demanded?]
  · rw [if_neg hstatic] at h
    simp only [Check.bind_eq_ok, Check.pure_eq_ok] at h
    obtain ⟨q, hq, rfl⟩ := h
    obtain ⟨b', hb', hstands⟩ := stands_of_generic hq
    obtain rfl : b = b' := Option.some.inj (hb.symm.trans hb')
    rw [hstands.wrapper?, Plan.demanded?]
    generalize b.binding.type = u at hstands hstatic
    cases hstands with
    | plain => rfl
    | @adapted k e =>
      have hne : d ≠ .primitiveArray k := fun hd => hstatic (testIsStatic_iff.mpr ⟨k, rfl, hd⟩)
      simp [Generic.demanded?, hne]

/-- What a plan adapts is what the binding demands. -/
theorem demanded?_of_plan {b : Bridge.Binding} {plan : Plan}
    (h : scope.plan b.type b.expr = .ok plan) :
    demanded? (scope.map Bound.binding) b = plan.demanded? scope.length := by
  obtain ⟨t, expr⟩ := b
  have hplans := plans_of_plan h
  dsimp only at h hplans
  cases hplans with
  | staticTest | typeTest => exact demanded?_typeTest_of_plan h
  | intLit | primLit | tuple | construct | get | set | length | copyTo | reflective
  | sequenceLit => rfl
  | constructView =>
    show some _ = some _
    rw [List.length_map]
  | view hl | toGenericView hl => exact wrapper?_of_binds hl
  | fromGenericView hq | genericSize hq | genericGet hq | genericSet hq | typeOf hq =>
    exact hq.wrapper?
  | var hl =>
    -- bound at the type that it is declared at, so not a wrapper that is bound at an object type
    cases t with
    | object d => exact wrapper?_of_ne hl (by simp)
    | _ => rfl

/-- So the demand of a binding is told by its plan. -/
theorem demand?_of_plan {b : Bridge.Binding} {plan : Plan}
    (h : scope.plan b.type b.expr = .ok plan) :
    demand? (scope.map Bound.binding) b =
      (plan.demanded? scope.length).map fun (source, kind) => ⟨scope.length, source, kind⟩ := by
  rw [demand?, demanded?_of_plan h, List.length_map]

end Scope

end Erasure

end ArrayBridge
