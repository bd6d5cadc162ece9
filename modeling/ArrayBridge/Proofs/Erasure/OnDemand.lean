import ArrayBridge.Proofs.Erasure.Appending
import ArrayBridge.Proofs.Erasure.Demands
import ArrayBridge.Proofs.Erasure.Remainder

/-!
# Adapters are made on demand

Under `AdapterPolicy.perUse` there is one adapter for each demand of an array as a generic value,
and under `AdapterPolicy.shared` one for the first demand of each array. An adapter is placed with
the code of the binding that makes the demand, after its array and before whatever reads it.

Main results:

* `Placement.adapterStep_place` — what placing a plan does to the adapters.
* `Placement.Meets.step`, `Placement.meets_of_eraseAll` — one adapter has been placed for each
  demand that is to be met.
* `Bridge.Program.adaptsOnDemand_of_erase` — the adapters of erased programs, and what is left of
  the programs without them.
-/

namespace ArrayBridge

open Bridge (GenericDemand demandsFrom firstDemands)
open ArrayBridge.Erased (Adapter adaptersOf)

namespace Erasure

/-! ## Adapters for demands -/

/-- An adapter has been made for a demand, given which erased locals stand for bridge locals. -/
structure AdapterFor (erasesTo : Local → Local → Prop) (bindings : List Erased.Binding)
    (a : Adapter) (d : GenericDemand) : Prop where
  code : bindings[a.place]? = some (adapterBinding d.kind a.array)
  /-- It wraps what stands for the wrapper that is demanded. -/
  array : d.source ≠ d.binding → erasesTo d.source a.array
  /-- A wrapper that is constructed where an object is declared has its array placed right before
  the adapter, and the adapter stands for it. -/
  fresh : d.source = d.binding → erasesTo d.binding a.place ∧ a.array + 1 = a.place ∧
    ∃ expr, bindings[a.array]? = some ⟨.array d.kind, expr⟩
  after : a.array < a.place
  /-- It is not made before it is demanded. -/
  notBefore : ∀ j y, j < d.binding → erasesTo j y → y < a.place
  /-- What stands for the demanding binding is the adapter or reads it. -/
  serves : ∃ y, erasesTo d.binding y ∧
    (y = a.place ∨ ∃ b, bindings[y]? = some b ∧ a.place ∈ b.expr.usedLocals)
  /-- Whatever reads it comes after it. -/
  readAfter : ∀ (y : Local) b, bindings[y]? = some b → a.place ∈ b.expr.usedLocals → a.place < y

/-- A bridge local is erased to a local. -/
def Scope.ErasesTo (scope : Scope) (l e : Local) : Prop := ∃ b, scope[l]? = some b ∧ b.erased = e

/-- An adapter is the one for a demand whatever else is placed after it. -/
theorem AdapterFor.mono {bindings bindings' : List Erased.Binding} {scope scope' : Scope}
    {a : Adapter} {d : GenericDemand} (h : AdapterFor scope.ErasesTo bindings a d)
    (hbindings : bindings <+: bindings') (hscope : scope <+: scope')
    (horder : InOrder bindings') : AdapterFor scope'.ErasesTo bindings' a d := by
  have hkeep : ∀ {l : Local} {b : Erased.Binding}, bindings[l]? = some b →
      bindings'[l]? = some b := by
    obtain ⟨more, rfl⟩ := hbindings
    exact getElem?_append_of_eq_some
  have herase : ∀ {j y : Local}, scope.ErasesTo j y → scope'.ErasesTo j y := by
    rintro j y ⟨b, hb, hy⟩
    obtain ⟨more, rfl⟩ := hscope
    exact ⟨b, getElem?_append_of_eq_some hb, hy⟩
  obtain ⟨y, hy, hserves⟩ := h.serves
  exact {
    code := hkeep h.code
    array := fun hne => herase (h.array hne)
    fresh := fun heq => by
      obtain ⟨hplace, hnext, expr, hexpr⟩ := h.fresh heq
      exact ⟨herase hplace, hnext, expr, hkeep hexpr⟩
    after := h.after
    notBefore := by
      -- the demanding binding is in the old scope, so those before it are
      obtain ⟨c, hc, -⟩ := hy
      have hlt := (List.getElem?_eq_some_iff.mp hc).1
      rintro j z hj ⟨b, hb, hz⟩
      obtain ⟨more, rfl⟩ := hscope
      rw [List.getElem?_append_left (Nat.lt_trans hj hlt)] at hb
      exact h.notBefore j z hj ⟨b, hb, hz⟩
    serves := by
      refine ⟨y, herase hy, hserves.imp_right ?_⟩
      rintro ⟨b, hb, hmem⟩
      exact ⟨b, hkeep hb, hmem⟩
    readAfter := fun y b hb hmem => horder y b hb _ hmem }

/-! ## What placing a plan does to the adapters -/

namespace Placement

variable {policy : AdapterPolicy} {p p' : Placement} {b : Bridge.Binding} {plan : Plan}

/-- An adapter that has been made is used again. -/
theorem adapter_of_some {source : ArraySource} {l : Local}
    (h : p.adapter? policy source.source = some l) : p.adapter policy source = (l, p) := by
  rw [adapter, h]

/-- One that has not is made behind all code so far, and is on record. -/
theorem adapter_of_none {source : ArraySource} (h : p.adapter? policy source.source = none) :
    p.adapter policy source = (p.bindings.length,
      ⟨p.bindings ++ [adapterBinding source.kind source.array], p.scope,
        p.adapters ++ [(source.source, p.bindings.length)]⟩) := by
  rw [adapter, h]
  rfl

section

variable {type : Erased.Ty} {source : ArraySource} {use : GenericUse} {l : Local}

/-- The adapter on record is read, and only the use of it is placed. -/
theorem place_use_of_some (h : p.adapter? policy source.source = some l) :
    p.place policy b (.use type (.adapted source) use) =
      ⟨p.bindings ++ [⟨type, use.expr l⟩], p.scope ++ [⟨b, p.bindings.length⟩], p.adapters⟩ := by
  simp only [place, code, generic, adapter_of_some h, emit]

/-- An adapter that is made is followed by the use that demands it. -/
theorem place_use_of_none (h : p.adapter? policy source.source = none) :
    p.place policy b (.use type (.adapted source) use) =
      ⟨p.bindings ++ [adapterBinding source.kind source.array,
          ⟨type, use.expr p.bindings.length⟩],
        p.scope ++ [⟨b, p.bindings.length + 1⟩],
        p.adapters ++ [(source.source, p.bindings.length)]⟩ := by
  simp [place, code, generic, adapter_of_none h, emit]

theorem place_adapt_of_some (h : p.adapter? policy source.source = some l) :
    p.place policy b (.adapt source) = ⟨p.bindings, p.scope ++ [⟨b, l⟩], p.adapters⟩ := by
  simp only [place, code, adapter_of_some h]

theorem place_adapt_of_none (h : p.adapter? policy source.source = none) :
    p.place policy b (.adapt source) =
      ⟨p.bindings ++ [adapterBinding source.kind source.array],
        p.scope ++ [⟨b, p.bindings.length⟩],
        p.adapters ++ [(source.source, p.bindings.length)]⟩ := by
  simp only [place, code, adapter_of_none h]

end

/-- What placing a binding does to the adapters, by the demand that the binding makes. -/
inductive AdapterStep (policy : AdapterPolicy) (p p' : Placement) : Option GenericDemand → Prop
  | undemanded (hadapters : adaptersOf p'.bindings = adaptersOf p.bindings)
    (hrecord : p'.adapters = p.adapters) : AdapterStep policy p p' none
  /-- The adapter that has been made for an earlier demand of the array is used again. -/
  | shared {d : GenericDemand} {l : Local} (hmade : p.adapter? policy d.source = some l)
    (hadapters : adaptersOf p'.bindings = adaptersOf p.bindings)
    (hrecord : p'.adapters = p.adapters) : AdapterStep policy p p' (some d)
  | made {d : GenericDemand} {a : Adapter} (hnone : p.adapter? policy d.source = none)
    (hadapters : adaptersOf p'.bindings = adaptersOf p.bindings ++ [a])
    (hrecord : p'.adapters = p.adapters ++ [(d.source, a.place)])
    (hfor : AdapterFor p'.scope.ErasesTo p'.bindings a d) : AdapterStep policy p p' (some d)

/-- An adapter that is made now is the one for the demand of the binding, if what is placed for the
binding is the adapter or reads it. -/
theorem Sound.adapterFor {source : ArraySource} {more : List Erased.Binding} {y : Local}
    (hp : p.Sound) (h : p.scope.Binds source.source (.wrapper source.kind) source.array)
    (horder : InOrder (p.bindings ++ adapterBinding source.kind source.array :: more))
    (hserves : y = p.bindings.length ∨ ∃ c,
      (p.bindings ++ adapterBinding source.kind source.array :: more)[y]? = some c ∧
        p.bindings.length ∈ c.expr.usedLocals) :
    AdapterFor (Scope.ErasesTo (p.scope ++ [⟨b, y⟩]))
      (p.bindings ++ adapterBinding source.kind source.array :: more)
      ⟨p.bindings.length, source.array⟩ ⟨p.scope.length, source.source, source.kind⟩ := by
  obtain ⟨hsource, harray⟩ := hp.lt_of_binds h
  exact {
    code := by simp
    array := fun _ => by
      obtain ⟨c, hc, -, hy⟩ := h
      exact ⟨c, getElem?_append_of_eq_some hc, hy⟩
    fresh := fun heq => absurd heq (Nat.ne_of_lt hsource)
    after := harray
    notBefore := by
      rintro j z hj ⟨c, hc, rfl⟩
      rw [List.getElem?_append_left hj] at hc
      exact hp.erased_lt (List.mem_of_getElem? hc)
    serves := ⟨y, ⟨⟨b, y⟩, List.getElem?_concat_length, rfl⟩, hserves⟩
    readAfter := fun y c hc hmem => horder y c hc _ hmem }

/-- Placing a binding makes an adapter exactly if the binding demands one and there is none to
share. -/
theorem adapterStep_place (policy : AdapterPolicy) (hp : p.Sound)
    (h : p.scope.plan b.type b.expr = .ok plan) :
    AdapterStep policy p (p.place policy b plan)
      (Bridge.demand? (p.scope.map Bound.binding) b) := by
  rw [Scope.demand?_of_plan h]
  have hplans := Scope.plans_of_plan h
  have horder : InOrder (p.place policy b plan).bindings := (hp.place h).typed.inOrder
  cases plan with
  | bind type expr =>
    exact .undemanded
      (Erased.adaptersOf_concat_of_wrapped?_eq_none _ (Scope.wrapped?_of_bind hplans)) rfl
  | use type q use =>
    cases q with
    | plain l =>
      exact .undemanded (Erased.adaptersOf_concat_of_wrapped?_eq_none _ (use.wrapped?_expr l)) rfl
    | adapted source =>
      have hbinds := Scope.binds_of_source? hplans rfl
      cases hmade : p.adapter? policy source.source with
      | some l =>
        rw [place_use_of_some hmade]
        exact .shared hmade
          (Erased.adaptersOf_concat_of_wrapped?_eq_none _ (use.wrapped?_expr l)) rfl
      | none =>
        rw [place_use_of_none hmade] at horder ⊢
        -- the use comes right after the adapter and reads it
        refine .made hmade ?_ rfl (hp.adapterFor hbinds horder
          (.inr ⟨⟨type, use.expr p.bindings.length⟩, by simp, ?_⟩))
        · rw [List.append_cons,
            Erased.adaptersOf_concat_of_wrapped?_eq_none _ (use.wrapped?_expr _),
            Erased.adaptersOf_concat]
          rfl
        · rw [GenericUse.usedLocals_expr]
          exact List.mem_cons_self
  | adapt source =>
    have hbinds := Scope.binds_of_source? hplans rfl
    cases hmade : p.adapter? policy source.source with
    | some l =>
      rw [place_adapt_of_some hmade]
      exact .shared hmade rfl rfl
    | none =>
      rw [place_adapt_of_none hmade] at horder ⊢
      exact .made hmade (Erased.adaptersOf_concat _ _) rfl (hp.adapterFor hbinds horder (.inl rfl))
  | adaptFresh k array =>
    -- the array comes with its adapter, so no adapter of it is on record yet
    rw [place_adaptFresh policy hp.fit] at horder ⊢
    refine .made (a := ⟨p.bindings.length + 1, p.bindings.length⟩) hp.fit.adapter?_length ?_ rfl
      { code := by simp, array := fun hne => absurd rfl hne, fresh := fun _ => ?_,
        after := Nat.lt_succ_self _, notBefore := ?_, serves := ?_,
        readAfter := fun y c hc hmem => horder y c hc _ hmem }
    · rw [List.append_cons, Erased.adaptersOf_concat,
        Erased.adaptersOf_concat_of_wrapped?_eq_none _ (Scope.wrapped?_of_adaptFresh hplans),
        List.length_append]
      rfl
    · exact ⟨⟨_, List.getElem?_concat_length, rfl⟩, rfl, array, by simp⟩
    · rintro j z hj ⟨c, hc, rfl⟩
      rw [List.getElem?_append_left hj] at hc
      exact Nat.lt_succ_of_lt (hp.erased_lt (List.mem_of_getElem? hc))
    · exact ⟨_, ⟨_, List.getElem?_concat_length, rfl⟩, .inl rfl⟩

end Placement

/-! ## One adapter for each demand -/

/-- The demands that an adapter is made for. -/
def demandsMet (policy : AdapterPolicy) (ds : List GenericDemand) : List GenericDemand :=
  match policy with
  | .perUse => ds
  | .shared => firstDemands ds

namespace Placement

variable {policy : AdapterPolicy} {p p' : Placement} {ds : List GenericDemand}

/-- One adapter has been placed for each demand that is to be met, in order, and is on record. -/
structure Meets (policy : AdapterPolicy) (p : Placement) (ds : List GenericDemand) : Prop where
  adapters : List.Forall₂ (AdapterFor p.scope.ErasesTo p.bindings) (adaptersOf p.bindings)
    (demandsMet policy ds)
  record : p.adapters.map Prod.fst = (demandsMet policy ds).map GenericDemand.source

theorem meets_empty (policy : AdapterPolicy) : empty.Meets policy [] := by
  have hnone : demandsMet policy [] = [] := by cases policy <;> rfl
  exact ⟨by rw [hnone]; exact .nil, by rw [hnone]; rfl⟩

/-- There is nothing to share if every demand has an adapter of its own, or there has been no demand
of the array before. -/
theorem Meets.adapter?_eq_none_iff (hm : p.Meets policy ds) {l : Local} :
    p.adapter? policy l = none ↔ policy = .perUse ∨ l ∉ ds.map GenericDemand.source := by
  cases policy with
  | perUse => simp [adapter?]
  | shared =>
    -- the adapters on record are those of the first demands, and these have all sources
    have hsources : l ∈ p.adapters.map Prod.fst ↔ l ∈ ds.map GenericDemand.source := by
      rw [hm.record]
      exact Bridge.mem_source_firstDemands
    have hnone : p.adapter? .shared l = none ↔ l ∉ p.adapters.map Prod.fst := by
      rw [adapter?, List.lookup_eq_none_iff, List.mem_map]
      constructor
      · rintro h ⟨a, ha, rfl⟩
        exact bne_iff_ne.mp (h a ha) rfl
      · exact fun h a ha => bne_iff_ne.mpr fun heq => h ⟨a, ha, heq.symm⟩
    rw [hnone, hsources]
    simp

/-- A demand is met by a new adapter unless there is one to use. -/
theorem Meets.demandsMet_concat (hm : p.Meets policy ds) (d : GenericDemand) :
    demandsMet policy (ds ++ [d]) =
      if p.adapter? policy d.source = none then demandsMet policy ds ++ [d]
      else demandsMet policy ds := by
  simp only [hm.adapter?_eq_none_iff]
  cases policy with
  | perUse => simp [demandsMet]
  | shared =>
    -- a later demand on a source is met by the adapter that there is
    rw [demandsMet, Bridge.firstDemands_concat, demandsMet]
    by_cases hmem : d.source ∈ ds.map GenericDemand.source <;> simp [hmem]

/-- Placing one more binding meets its demand. -/
theorem Meets.step {d? : Option GenericDemand} (hm : p.Meets policy ds)
    (hstep : AdapterStep policy p p' d?) (hbindings : p.bindings <+: p'.bindings)
    (hscope : p.scope <+: p'.scope) (horder : InOrder p'.bindings) :
    p'.Meets policy (ds ++ d?.toList) := by
  -- the adapters that have been made are still those for the demands before
  have hkeep : List.Forall₂ (AdapterFor p'.scope.ErasesTo p'.bindings) (adaptersOf p.bindings)
      (demandsMet policy ds) :=
    hm.adapters.imp fun a d h => h.mono hbindings hscope horder
  cases hstep with
  | undemanded hadapters hrecord =>
    rw [Option.toList_none, List.append_nil]
    exact ⟨hadapters ▸ hkeep, hrecord ▸ hm.record⟩
  | @shared d l hmade hadapters hrecord =>
    have hds : demandsMet policy (ds ++ [d]) = demandsMet policy ds := by
      rw [hm.demandsMet_concat, if_neg (by simp [hmade])]
    rw [Option.toList_some]
    exact ⟨hadapters ▸ hds ▸ hkeep, hrecord ▸ hds ▸ hm.record⟩
  | @made d a hnone hadapters hrecord hfor =>
    have hds : demandsMet policy (ds ++ [d]) = demandsMet policy ds ++ [d] := by
      rw [hm.demandsMet_concat, if_pos hnone]
    rw [Option.toList_some]
    refine ⟨?_, ?_⟩
    · rw [hadapters, hds]
      exact List.rel_append hkeep (.cons hfor .nil)
    · rw [hrecord, hds, List.map_append, List.map_append, hm.record]
      rfl

/-- Whatever has been placed meets the demands of its bindings. -/
theorem meets_of_eraseAll {bs : List Bridge.Binding} (h : empty.eraseAll policy bs = .ok p) :
    p.Sound ∧ p.scope.map Bound.binding = bs ∧ p.Meets policy (demandsFrom [] bs) := by
  induction bs using List.reverseRecOn generalizing p with
  | nil =>
    injection h with h
    subst h
    refine ⟨sound_empty, rfl, ?_⟩
    rw [demandsFrom]
    exact meets_empty policy
  | append_singleton bs b ih =>
    rw [eraseAll_concat] at h
    obtain ⟨before, hbefore, hb⟩ := Check.bind_eq_ok.mp h
    obtain ⟨hsound, hscope, hmeets⟩ := ih hbefore
    obtain ⟨plan, hplan, rfl⟩ := erase_eq_ok.mp hb
    have hsound' : (before.place policy b plan).Sound := hsound.place hplan
    refine ⟨hsound', by rw [bindings_scope_place, hscope], ?_⟩
    -- what the binding demands is read off the bindings, of which the scope consists
    have hstep := adapterStep_place policy hsound hplan
    rw [hscope] at hstep
    rw [Bridge.demandsFrom_concat, List.nil_append]
    exact hmeets.step hstep (prefix_place before b plan) ⟨_, (scope_place before b plan).symm⟩
      hsound'.typed.inOrder

end Placement

end Erasure

/-! ## Erased programs -/

open Erasure (AdapterFor Placement demandsMet exists_placement_of_erase erase_eq_ok_iff
  withoutAdapters_assemble)

namespace Bridge

variable {policy : AdapterPolicy} {p : Program} {e : Erased.Program}

/-- What a local of a program is erased to: the program that returns it becomes the one that returns
that. -/
def Program.ErasesTo (policy : AdapterPolicy) (p : Program) (e : Erased.Program) (l y : Local) :
    Prop :=
  Program.erase policy ⟨p.bindings, l⟩ = .ok ⟨e.bindings, y⟩

/-- The two erasures of a program make their adapters on demand. -/
structure Program.AdaptsOnDemand (p : Program) (perUse shared : Erased.Program) : Prop where
  /-- One adapter for each demand. -/
  each : List.Forall₂ (AdapterFor (p.ErasesTo .perUse perUse) perUse.bindings) perUse.adapters
    p.demands
  /-- One adapter for the first demand of each array of which there is one. -/
  once : List.Forall₂ (AdapterFor (p.ErasesTo .shared shared) shared.bindings) shared.adapters
    (firstDemands p.demands)
  sources : ∀ l, (∃ d ∈ firstDemands p.demands, d.source = l) ↔ ∃ d ∈ p.demands, d.source = l
  distinct : ((firstDemands p.demands).map GenericDemand.source).Nodup
  first : ∀ d ∈ firstDemands p.demands, ∀ d' ∈ p.demands, d'.source = d.source →
    d.binding ≤ d'.binding
  /-- Nothing else differs. -/
  same : perUse.withoutAdapters = shared.withoutAdapters

/-- What a local is erased to can be looked up in what has been placed. -/
theorem Program.erasesTo_eq {placed : Placement} {result : Local}
    (h : Placement.empty.eraseAll policy p.bindings = .ok placed) :
    p.ErasesTo policy ⟨placed.bindings, result⟩ = placed.scope.ErasesTo := by
  funext l y
  rw [ErasesTo, erase, Erasure.Scope.ErasesTo]
  dsimp only
  rw [h, Check.ok_bind]
  cases placed.scope[l]? with
  | none => simp [throw, throwThe, MonadExceptOf.throw]
  | some b => simp [pure, Except.pure]

/-- An erased program has one adapter for each demand that is to be met. -/
theorem Program.adapters_of_erase (h : p.erase policy = .ok e) :
    List.Forall₂ (AdapterFor (p.ErasesTo policy e) e.bindings) e.adapters
      (demandsMet policy p.demands) := by
  obtain ⟨placed, b, hplaced, -, rfl⟩ := exists_placement_of_erase h
  obtain ⟨-, -, hmeets⟩ := Placement.meets_of_eraseAll hplaced
  rw [erasesTo_eq hplaced]
  exact hmeets.adapters

/-- Adapters are made on demand: one for each demand of an array as a generic value if they are not
shared, and one for each array of which there is a demand if they are. The erased programs do not
differ in anything else. -/
theorem Program.adaptsOnDemand_of_erase (h : p.erase policy = .ok e) :
    ∃ perUse shared, p.erase .perUse = .ok perUse ∧ p.erase .shared = .ok shared ∧
      p.AdaptsOnDemand perUse shared := by
  obtain ⟨plans, hplans, hresult, -⟩ := erase_eq_ok_iff.mp h
  -- a program that one policy accepts is planned, and the plans are placed under either
  have herase : ∀ policy, p.erase policy = .ok (Erasure.assemble policy p.result plans) :=
    fun policy => erase_eq_ok_iff.mpr ⟨plans, hplans, hresult, rfl⟩
  refine ⟨_, _, herase .perUse, herase .shared, ?_⟩
  exact {
    each := adapters_of_erase (herase .perUse)
    once := adapters_of_erase (herase .shared)
    sources := fun l => by
      rw [← List.mem_map, ← List.mem_map]
      exact mem_source_firstDemands
    distinct := nodup_source_firstDemands _
    first := fun d hd d' hd' hsource =>
      le_binding_of_mem_firstDemands (pairwise_demandsFrom [] _) hd hd' hsource
    same := by
      rw [withoutAdapters_assemble .perUse hplans hresult,
        withoutAdapters_assemble .shared hplans hresult] }

/-- An array is viewed and then measured, and tested against its own class in between, and a view is
taken of an array that is nothing else: three demands, of two arrays. -/
theorem Program.adaptsOnDemand_of_erase_views :
    ∃ (p : Program) (perUse shared : Erased.Program), p.erase .perUse = .ok perUse ∧
      p.erase .shared = .ok shared ∧ p.AdaptsOnDemand perUse shared ∧
      p.demands = [⟨2, 1, .int⟩, ⟨4, 1, .int⟩, ⟨5, 5, .int⟩] ∧
      perUse.adapters = [⟨2, 1⟩, ⟨4, 1⟩, ⟨7, 6⟩] ∧ shared.adapters = [⟨2, 1⟩, ⟨6, 5⟩] ∧
      shared.withoutAdapters =
        ⟨[⟨.integer, .intLit 2⟩, ⟨.array .int, .newArray .int 0⟩,
          ⟨.prim .boolean, .primLit (.boolean true)⟩, ⟨.integer, .genericSize 3⟩,
          ⟨.array .int, .newArray .int 6⟩], 9⟩ := by
  let p : Program :=
    ⟨[⟨.integer, .intLit 2⟩, ⟨.wrapper .int, .call .int (.construct 0 none)⟩,
      ⟨.object .anything, .var 1⟩, ⟨.prim .boolean, .typeTest 1 (.primitiveArray .int)⟩,
      ⟨.integer, .genericSize 1⟩, ⟨.object .anything, .call .int (.construct 4 none)⟩], 5⟩
  let perUse : Erased.Program :=
    ⟨[⟨.integer, .intLit 2⟩, ⟨.array .int, .newArray .int 0⟩,
      ⟨.object (.genericView .int), .wrapAdapter .int 1⟩,
      ⟨.prim .boolean, .primLit (.boolean true)⟩,
      ⟨.object (.genericView .int), .wrapAdapter .int 1⟩, ⟨.integer, .genericSize 4⟩,
      ⟨.array .int, .newArray .int 5⟩, ⟨.object (.genericView .int), .wrapAdapter .int 6⟩], 7⟩
  let shared : Erased.Program :=
    ⟨[⟨.integer, .intLit 2⟩, ⟨.array .int, .newArray .int 0⟩,
      ⟨.object (.genericView .int), .wrapAdapter .int 1⟩,
      ⟨.prim .boolean, .primLit (.boolean true)⟩, ⟨.integer, .genericSize 2⟩,
      ⟨.array .int, .newArray .int 4⟩, ⟨.object (.genericView .int), .wrapAdapter .int 5⟩], 6⟩
  have hperUse : p.erase .perUse = .ok perUse := by rfl
  have hshared : p.erase .shared = .ok shared := by rfl
  obtain ⟨e₁, e₂, h₁, h₂, hon⟩ := adaptsOnDemand_of_erase hperUse
  obtain rfl : perUse = e₁ := Except.ok.inj (hperUse.symm.trans h₁)
  obtain rfl : shared = e₂ := Except.ok.inj (hshared.symm.trans h₂)
  exact ⟨p, perUse, shared, hperUse, hshared, hon, rfl, rfl, rfl, rfl⟩

end Bridge

end ArrayBridge
