import ArrayBridge.Proofs.Erasure.Adapters

/-!
# The adapter policy cannot be observed

Plans can be evaluated without placing any code: each on its own, with a view made on the spot
wherever it demands one. This evaluation knows of no policy. The erased program follows it under
either policy, so two erased programs that differ in the policy only end alike. Nothing is assumed
of the program, so an array may be declared where a tuple is put together; then the first adapter
that is made fails, and no second one is reached.

Main results:

* `Carries.generic` — what is placed for a generic operand does what looking at it does.
* `Carries.place` — the code of a plan does what the plan does, under either policy.
* `Carries.placeAll` — so does the code of all plans.
* `sameErasure_of_policies` — erasure fails or not, and its programs end, in the same way under all
  policies.
-/

namespace ArrayBridge

open ArrayBridge.Erased (Value Env RunError Agree HoldsViews evalBindings)
open ArrayBridge.Action (lift)

namespace Erasure

/-! ## What plans compute -/

/-- What a generic operand is seen as: an array is seen through a view made on the spot. -/
def Generic.eval (values : Env) : Generic → Action RunError Value
  | plain l => lift (values.value l)
  | adapted source => (Erased.Expr.wrapAdapter source.kind source.array).eval values

/-- What a plan computes, given the values of the bridge locals before its binding. -/
def Plan.eval (values : Env) : Plan → Action RunError Value
  | .bind _ expr => expr.eval values
  | .use _ operand demand => do
    let v ← operand.eval values
    (demand.expr values.length).eval (values ++ [v])
  | .adapt source => (Generic.adapted source).eval values
  | .adaptFresh k array => do
    let v ← array.eval values
    (Erased.Expr.wrapAdapter k values.length).eval (values ++ [v])

/-- Evaluates plans one after another, each seeing the values of those before it. -/
def evalPlans (values : Env) : List Planned → Action RunError Env
  | [] => return values
  | c :: rest => do
    let v ← c.plan.eval values
    evalPlans (values ++ [v]) rest

/-- Runs plans on a store of their own: the outcome, and the store at the end. -/
def runPlans (result : Local) (plans : List Planned) : EStateM.Result RunError Store Value :=
  (evalPlans [] plans >>= fun values => lift (values.value result)).run .empty

/-! ## Uses of generic values -/

/-- A generic value is used alike wherever it is held, if the other operands hold the same. -/
theorem GenericUse.sameOutcome_expr {use : GenericUse} {f : Local → Local} {values env : Env}
    {l : Local} {v : Value} (h : Agree f values env use.usedLocals) (hl : env[l]? = some v)
    (s : Store) :
    SameOutcomeUpTo Eq (((use.rename f).expr l).eval env s)
      ((use.expr values.length).eval (values ++ [v]) s) := by
  -- the value is held at the end on one side, which is where the renaming takes `l` from
  let g : Local → Local := fun j => if j = values.length then l else f j
  have hsame : ∀ j ∈ use.usedLocals, g j = f j := by
    intro j hj
    obtain ⟨w, hw, -⟩ := h j hj
    have hlt := (List.getElem?_eq_some_iff.mp hw).1
    exact if_neg (Nat.ne_of_lt hlt)
  have hexpr : (use.expr values.length).rename g = (use.rename f).expr l := by
    cases use with
    | get index =>
      have hi := hsame index (by simp [usedLocals])
      simp [expr, Erased.Expr.rename, GenericUse.rename, hi, g]
    | set index value =>
      have hi := hsame index (by simp [usedLocals])
      have hv := hsame value (by simp [usedLocals])
      simp [expr, Erased.Expr.rename, GenericUse.rename, hi, hv, g]
    | _ => simp [expr, Erased.Expr.rename, GenericUse.rename, g]
  have hagree : Agree g (values ++ [v]) env (use.expr values.length).usedLocals := by
    intro j hj
    rw [usedLocals_expr] at hj
    rcases List.mem_cons.mp hj with rfl | hj
    · exact ⟨v, List.getElem?_concat_length, by simpa [g] using hl⟩
    · obtain ⟨w, hw, hw'⟩ := h j hj
      exact ⟨w, getElem?_append_of_eq_some hw, by rw [hsame j hj, hw']⟩
  rw [← hexpr]
  exact (Erased.Expr.sameOutcome_rename hagree s).symm

/-! ## Erased locals that carry values -/

namespace Placement

/-- The locals of erased code hold what evaluating the plans gives. -/
structure Carries (p : Placement) (env values : Env) : Prop where
  length : env.length = p.bindings.length
  /-- Adapters hold views. -/
  views : HoldsViews p.bindings env
  count : values.length = p.scope.length
  /-- What stands for a bridge local holds its value. -/
  scope : ∀ (j : Local) (b : Bound), p.scope[j]? = some b →
    ∃ v, values[j]? = some v ∧ env[b.erased]? = some v

namespace Carries

variable {policy : AdapterPolicy} {p p' : Placement} {env values : Env} {l e : Local}
  {t : Bridge.Ty} {s s' : Store}

theorem empty : Placement.empty.Carries [] [] :=
  ⟨rfl, fun i t k e hi => by simp [Placement.empty] at hi, rfl, by simp [Placement.empty]⟩

/-- The record of adapters is of no concern to it. -/
theorem of_eq (hm : p.Carries env values) (hbindings : p'.bindings = p.bindings)
    (hscope : p'.scope = p.scope) : p'.Carries env values where
  length := hbindings ▸ hm.length
  views := hbindings ▸ hm.views
  count := hscope ▸ hm.count
  scope := hscope ▸ hm.scope

/-- What stands for a local has its value. -/
theorem value (hm : p.Carries env values) (h : p.scope.Binds l t e) :
    ∃ v, values[l]? = some v ∧ env[e]? = some v := by
  obtain ⟨b, hb, -, rfl⟩ := h
  exact hm.scope l b hb

/-- Locals in scope hold under their erased names what they hold when plans are evaluated. -/
theorem agree (hm : p.Carries env values) {locals : List Local}
    (h : ∀ l ∈ locals, l < p.scope.length) :
    Agree p.scope.standsFor values env locals := by
  intro l hl
  obtain ⟨b, hb⟩ : ∃ b, p.scope[l]? = some b := ⟨_, List.getElem?_eq_getElem (h l hl)⟩
  rw [Scope.standsFor_of_getElem? hb]
  exact hm.scope l b hb

/-- Placing an expression keeps the relation, once its value is bound. -/
theorem emit (type : Erased.Ty) {expr : Erased.Expr} {v : Value} (hm : p.Carries env values)
    (hv : expr.eval env s = .ok v s') :
    (p.emit type expr).2.Carries (env ++ [v]) values ∧
      (env ++ [v])[(p.emit type expr).1]? = some v := by
  refine ⟨⟨?_, hm.views.concat hm.length hv, hm.count, ?_⟩, ?_⟩
  · simp [Placement.emit, hm.length]
  · intro j b hb
    obtain ⟨w, hw, hw'⟩ := hm.scope j b hb
    exact ⟨w, hw, getElem?_append_of_eq_some hw'⟩
  · rw [Placement.emit, ← hm.length, List.getElem?_concat_length]

/-- Putting a binding into scope keeps the relation, once its value is known. -/
theorem bound {b : Bridge.Binding} {v : Value} (hm : p.Carries env values)
    (hl : env[l]? = some v) :
    Carries { p with scope := p.scope ++ [⟨b, l⟩] } env (values ++ [v]) := by
  refine ⟨hm.length, hm.views, by simp [hm.count], ?_⟩
  intro j c hc
  rcases getElem?_concat_cases hc with ⟨-, hc⟩ | ⟨rfl, rfl⟩
  · obtain ⟨w, hw, hw'⟩ := hm.scope j c hc
    exact ⟨w, getElem?_append_of_eq_some hw, hw'⟩
  · exact ⟨v, by rw [← hm.count, List.getElem?_concat_length], hl⟩

/-- The last expression that is placed for a binding has to end as its plan does. -/
theorem last (b : Bridge.Binding) (type : Erased.Ty) {expr : Erased.Expr}
    {x : Action RunError Value} (hm : p.Carries env values)
    (hsame : SameOutcomeUpTo Eq (expr.eval env s) (x s)) :
    SameOutcomeUpTo
      (fun env' v => Carries { (p.emit type expr).2 with
        scope := p.scope ++ [⟨b, (p.emit type expr).1⟩] } env' (values ++ [v]))
      (evalBindings env [⟨type, expr⟩] s) (x s) := by
  rw [← bind_pure x]
  refine hsame.bind fun v w s' hv _ hvw => ⟨?_, rfl⟩
  subst hvw
  obtain ⟨hemit, hlast⟩ := hm.emit type hv
  exact hemit.bound hlast

/-! ### Generic operands -/

/-- What is placed to adapt an array does what making a view of it does. -/
theorem adapter (policy : AdapterPolicy) (source : ArraySource) (hm : p.Carries env values)
    (hp : p.AdaptersFit) (h : p.scope.Binds source.source (.wrapper source.kind) source.array) :
    ∃ more, (p.adapter policy source).2.bindings = p.bindings ++ more ∧ ∀ s,
      SameOutcomeUpTo
        (fun env' v => (p.adapter policy source).2.Carries env' values ∧
          env'[(p.adapter policy source).1]? = some v)
        (evalBindings env more s)
        ((Erased.Expr.wrapAdapter source.kind source.source).eval values s) := by
  obtain ⟨w, hw, hw'⟩ := hm.value h
  cases hmade : p.adapter? policy source.source with
  | some made =>
    -- the adapter has been run, so the array was there and is seen through it
    obtain ⟨a, hk, ha, hview⟩ :=
      hm.views made _ _ _ ((hp _ (mem_of_adapter? hmade)).2 _ _ h)
    obtain rfl : w = .array a := Option.some.inj (hw'.symm.trans ha)
    have heval : ∀ s, (Erased.Expr.wrapAdapter source.kind source.source).eval values s =
        .ok (.sequence a.toSequence) s :=
      fun s => Erased.eval_wrapAdapter_eq_ok.mpr ⟨⟨a, hk, hw, rfl⟩, rfl⟩
    simp only [Placement.adapter, hmade]
    refine ⟨[], (List.append_nil _).symm, fun s => ?_⟩
    rw [heval s]
    exact ⟨⟨hm, hview⟩, rfl⟩
  | none =>
    -- the view is made now, and fails where the plan does
    simp only [Placement.adapter, hmade]
    refine ⟨[adapterBinding source.kind source.array], rfl, fun s => ?_⟩
    have hsame : SameOutcomeUpTo Eq
        ((Erased.Expr.wrapAdapter source.kind source.array).eval env s)
        ((Erased.Expr.wrapAdapter source.kind source.source).eval values s) :=
      Env.sameOutcome_of_operand hw' hw fun _ _ _ => .rfl_eq _
    rw [← bind_pure (Erased.Expr.eval values _)]
    refine hsame.bind fun v v' s' hv _ hvv => ?_
    subst hvv
    obtain ⟨hemit, hlast⟩ := hm.emit (.object (.genericView source.kind)) hv
    exact ⟨⟨hemit.of_eq rfl rfl, hlast⟩, rfl⟩

/-- What is placed for a generic operand does what looking at it does. -/
theorem generic (policy : AdapterPolicy) {q : Generic} (hm : p.Carries env values)
    (hp : p.AdaptersFit) (hq : q.usedLocal < p.scope.length)
    (hsource : ∀ source, q = .adapted source → (Scope.direct (p.scope.map Bound.binding)).Binds
      source.source (.wrapper source.kind) source.array) :
    ∃ more, (p.generic policy (q.rename p.scope.standsFor)).2.bindings = p.bindings ++ more ∧
      ∀ s, SameOutcomeUpTo
        (fun env' v => (p.generic policy (q.rename p.scope.standsFor)).2.Carries env' values ∧
          env'[(p.generic policy (q.rename p.scope.standsFor)).1]? = some v)
        (evalBindings env more s) (q.eval values s) := by
  cases q with
  | plain l =>
    have hl : ∀ j ∈ [l], j < p.scope.length := by
      intro j hj
      exact List.mem_singleton.mp hj ▸ hq
    obtain ⟨v, hv, hv'⟩ := hm.agree hl l List.mem_cons_self
    refine ⟨[], (List.append_nil _).symm, fun s => ?_⟩
    rw [Generic.eval, Env.value_eq_ok.mpr hv]
    exact ⟨⟨hm, hv'⟩, rfl⟩
  | adapted source =>
    have hdirect := hsource source rfl
    -- the plan was made as if the array stood for itself
    have hself : source.array = source.source := (Scope.binds_direct_iff.mp hdirect).2
    obtain ⟨more, hmore, hsame⟩ := hm.adapter policy (source.rename p.scope.standsFor) hp
      (Scope.binds_of_direct hdirect)
    refine ⟨more, hmore, fun s => ?_⟩
    rw [Generic.eval, hself]
    exact hsame s

/-! ### Bindings -/

/-- The code of a plan does what the plan does, under either policy. -/
theorem place (policy : AdapterPolicy) {b : Bridge.Binding} {plan : Plan}
    (hm : p.Carries env values) (hp : p.AdaptersFit)
    (hplan : (Scope.direct (p.scope.map Bound.binding)).plan b.type b.expr = .ok plan) :
    ∃ more, (p.place policy b (plan.rename p.scope.standsFor)).bindings = p.bindings ++ more ∧
      ∀ s, SameOutcomeUpTo
        (fun env' v =>
          (p.place policy b (plan.rename p.scope.standsFor)).Carries env' (values ++ [v]))
        (evalBindings env more s) (plan.eval values s) := by
  have hplans := Scope.plans_of_plan hplan
  have hused := Scope.lt_length_of_plans_direct hplans
  cases plan with
  | bind type expr =>
    exact ⟨[⟨type, expr.rename p.scope.standsFor⟩], rfl, fun s =>
      hm.last b type (Erased.Expr.sameOutcome_rename (hm.agree hused) s).symm⟩
  | use type q use =>
    -- the operand is placed first, and the use of it comes last
    obtain ⟨more, hmore, hsame⟩ := hm.generic policy hp
      (hused _ List.mem_cons_self)
      (fun source hq => Scope.binds_of_source? hplans (by rw [hq]; rfl))
    have hscope : (p.generic policy (q.rename p.scope.standsFor)).2.scope = p.scope :=
      (grows_generic p _).scope
    let l := (p.generic policy (q.rename p.scope.standsFor)).1
    refine ⟨more ++ [⟨type, (use.rename p.scope.standsFor).expr l⟩], ?_, fun s => ?_⟩
    · show (p.generic policy (q.rename p.scope.standsFor)).2.bindings ++ [_] = _
      rw [hmore, List.append_assoc]
      rfl
    · rw [Erased.evalBindings_append]
      refine (hsame s).bind fun env' v s' _ _ hboth => ?_
      obtain ⟨hm', hl⟩ := hboth
      have hother : ∀ l ∈ use.usedLocals,
          l < (p.generic policy (q.rename p.scope.standsFor)).2.scope.length := by
        rw [hscope]
        exact fun l hl => hused l (List.mem_cons_of_mem _ hl)
      have hagree := hm'.agree hother
      rw [hscope] at hagree
      exact hm'.last b type (GenericUse.sameOutcome_expr hagree hl s')
  | adapt source =>
    have hdirect := Scope.binds_of_source? hplans rfl
    have hself : source.array = source.source := (Scope.binds_direct_iff.mp hdirect).2
    obtain ⟨more, hmore, hsame⟩ := hm.adapter policy (source.rename p.scope.standsFor) hp
      (Scope.binds_of_direct hdirect)
    refine ⟨more, hmore, fun s => ?_⟩
    rw [Plan.eval, Generic.eval, hself, ← bind_pure (Erased.Expr.eval values _),
      ← bind_pure (evalBindings env more)]
    refine (hsame s).bind fun env' v s' _ _ hboth => ⟨?_, rfl⟩
    exact hboth.1.bound hboth.2
  | adaptFresh k array =>
    rw [Plan.rename, place_adaptFresh policy hp]
    refine ⟨_, rfl, fun s => ?_⟩
    refine (Erased.Expr.sameOutcome_rename (hm.agree hused) s).symm.bind fun v w s' hv _ hvw => ?_
    subst hvw
    -- the array is placed right before the adapter of it
    obtain ⟨hm', hl⟩ := hm.emit (.array k) hv
    have hview : SameOutcomeUpTo Eq
        ((Erased.Expr.wrapAdapter k p.bindings.length).eval (env ++ [v]) s')
        ((Erased.Expr.wrapAdapter k values.length).eval (values ++ [v]) s') :=
      Env.sameOutcome_of_operand hl List.getElem?_concat_length fun _ _ _ => .rfl_eq _
    refine (hm'.last b (.object (.genericView k)) hview).mono fun env' w h => ?_
    -- the adapter goes on record too, which is of no concern here
    exact h.of_eq (by simp [Placement.emit, adapterBinding]) (by simp [Placement.emit])

/-- The code of all plans does what the plans do, under either policy. -/
theorem placeAll (policy : AdapterPolicy) {bs : List Bridge.Binding} {plans : List Planned}
    (hm : p.Carries env values) (hp : p.AdaptersFit)
    (hplans : planAll (p.scope.map Bound.binding) bs = .ok plans) :
    ∃ more, (p.placeAll policy plans).bindings = p.bindings ++ more ∧ ∀ s,
      SameOutcomeUpTo (fun env' values' => (p.placeAll policy plans).Carries env' values')
        (evalBindings env more s) (evalPlans values plans s) := by
  -- what is placed for the first binding, and what is placed after it, do not depend on a run
  induction bs generalizing p env values plans with
  | nil =>
    injection hplans with hplans
    subst hplans
    exact ⟨[], (List.append_nil _).symm, fun s => ⟨hm, rfl⟩⟩
  | cons b bs ih =>
    obtain ⟨plan, after, hplan, hafter, rfl⟩ := planAll_cons_eq_ok.mp hplans
    obtain ⟨first, hfirst, hsame⟩ := hm.place policy hp hplan
    have hp' : (p.place policy b (plan.rename p.scope.standsFor)).AdaptersFit :=
      hp.place (Scope.plans_of_plan (Scope.plan_of_direct hplan))
    have hafter' : planAll ((p.place policy b (plan.rename p.scope.standsFor)).scope.map
        Bound.binding) bs = .ok after := by
      rw [bindings_scope_place]
      exact hafter
    obtain ⟨rest, hrest⟩ := prefix_placeAll policy
      (p.place policy b (plan.rename p.scope.standsFor)) after
    refine ⟨first ++ rest, ?_, fun s => ?_⟩
    · rw [Placement.placeAll, ← hrest, hfirst, List.append_assoc]
    · rw [Erased.evalBindings_append]
      refine (hsame s).bind fun env' v s' _ _ hm' => ?_
      obtain ⟨rest', hrest', hsame'⟩ := ih hm' hp' hafter'
      obtain rfl : rest = rest' := List.append_cancel_left (hrest.trans hrest')
      exact hsame' s'

/-- What is placed for a whole program does what its plans do. -/
theorem run_placeAll (policy : AdapterPolicy) {bs : List Bridge.Binding} {plans : List Planned}
    (hplans : planAll [] bs = .ok plans) :
    SameOutcomeUpTo (Placement.empty.placeAll policy plans).Carries
      (evalBindings [] (Placement.empty.placeAll policy plans).bindings .empty)
      (evalPlans [] plans .empty) := by
  obtain ⟨more, hmore, hsame⟩ := empty.placeAll policy adaptersFit_empty hplans
  obtain rfl : (Placement.empty.placeAll policy plans).bindings = more := hmore
  exact hsame .empty

end Carries

end Placement

/-! ## Programs -/

/-- The program that plans become ends as the plans do, under either policy. -/
theorem sameOutcome_assemble (policy : AdapterPolicy) {p : Bridge.Program} {plans : List Planned}
    (h : planProgram p = .ok plans) :
    SameOutcome (assemble policy p.result plans).run (runPlans p.result plans) := by
  rw [planProgram] at h
  obtain ⟨_, hplans, h⟩ := Check.bind_eq_ok.mp h
  by_cases hresult : p.result < p.bindings.length
  · rw [if_pos hresult] at h
    rw [Check.pure_eq_ok.mp h] at hplans
    have hlt : p.result < (Placement.empty.placeAll policy plans).scope.length := by
      rw [Placement.length_scope_placeAll hplans]
      exact hresult
    refine (Placement.Carries.run_placeAll policy hplans).bind fun env values s _ _ hm => ?_
    -- what stands for the result holds its value
    have hscoped : ∀ l ∈ [p.result], l < (Placement.empty.placeAll policy plans).scope.length := by
      intro l hl
      exact List.mem_singleton.mp hl ▸ hlt
    obtain ⟨v, hv, hv'⟩ := hm.agree hscoped p.result List.mem_cons_self
    have hreads : env.value (assemble policy p.result plans).result = values.value p.result :=
      (Env.value_eq_ok.mpr hv').trans (Env.value_eq_ok.mpr hv).symm
    rw [hreads]
    exact .rfl_eq _
  · rw [if_neg hresult] at h
    cases h

/-- Two erasures are alike if they fail in the same way, or give programs that end alike. -/
def SameErasure : Except Error Erased.Program → Except Error Erased.Program → Prop
  | .ok e, .ok e' => SameOutcome e.run e'.run
  | .error error, .error error' => error = error'
  | _, _ => False

end Erasure

open Erasure in
/-- The adapter policy cannot be observed: erasing a program succeeds under all policies or fails
under all, and in the same way, and the erased programs end alike. -/
theorem Bridge.Program.sameErasure_of_policies (p : Bridge.Program)
    (policy policy' : AdapterPolicy) :
    SameErasure (p.erase policy) (p.erase policy') := by
  rw [erase_eq, erase_eq]
  cases hplans : planProgram p with
  | error error => rfl
  | ok plans =>
    -- both programs end as the plans do
    exact (sameOutcome_assemble policy hplans).trans (sameOutcome_assemble policy' hplans).symm

end ArrayBridge
