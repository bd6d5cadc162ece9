import ArrayBridge.Proofs.Erasure.Placing
import ArrayBridge.Proofs.Erasure.Planning

/-!
# Erasure in two phases

Plans are made as if every local stood for itself, so all bindings can be planned before any code is
placed. The first phase finds every fault and knows nothing of the adapter policy; the second cannot
fail.

Main results:

* `Placement.grows_code`, `Placement.prefix_place` — placing code only adds to what has been placed.
* `Placement.eraseAll_eq` — erasing bindings is planning them all, and then placing the plans.
* `erase_eq` — the same for programs.
-/

namespace ArrayBridge.Erasure

/-! ## Placing adds code -/

namespace Placement

variable {policy : AdapterPolicy}

theorem grows_adapter (p : Placement) (source : ArraySource) :
    p.Grows (p.adapter policy source).2 := by
  rw [adapter]
  cases p.adapter? policy source.source with
  | some l => exact .refl p
  | none => exact ⟨(emit_grows p _ _).bindings, rfl⟩

theorem grows_generic (p : Placement) (q : Generic) : p.Grows (p.generic policy q).2 := by
  cases q with
  | plain l => exact .refl p
  | adapted source => exact grows_adapter p source

/-- Whatever is placed, nothing before it changes. -/
theorem grows_code (p : Placement) (plan : Plan) : p.Grows (p.code policy plan).2 := by
  cases plan with
  | bind type expr => exact emit_grows p type expr
  | use type q use => exact (grows_generic p q).trans (emit_grows _ type _)
  | adapt source => exact grows_adapter p source
  | adaptFresh k array => exact (emit_grows p (.array k) array).trans (grows_adapter _ _)

theorem prefix_place (p : Placement) (b : Bridge.Binding) (plan : Plan) :
    p.bindings <+: (p.place policy b plan).bindings :=
  (grows_code p plan).bindings

/-- Each binding adds one entry to the scope. -/
theorem scope_place (p : Placement) (b : Bridge.Binding) (plan : Plan) :
    (p.place policy b plan).scope = p.scope ++ [⟨b, (p.code policy plan).1⟩] := by
  show (p.code policy plan).2.scope ++ [_] = _
  rw [(grows_code p plan).scope]
  rfl

@[simp] theorem bindings_scope_place (policy : AdapterPolicy) (p : Placement)
    (b : Bridge.Binding) (plan : Plan) :
    (p.place policy b plan).scope.map Bound.binding = p.scope.map Bound.binding ++ [b] := by
  rw [scope_place, List.map_append, List.map_singleton]

end Placement

/-! ## The two phases -/

/-- A binding and the plan of it, which is made as if locals stood for themselves. -/
structure Planned where
  binding : Bridge.Binding
  plan : Plan

/-- Plans bindings one after another, after those that come before them. -/
def planAll (before : List Bridge.Binding) : List Bridge.Binding → Except Error (List Planned)
  | [] => .ok []
  | b :: rest =>
    match (Scope.direct before).plan b.type b.expr with
    | .ok plan => (⟨b, plan⟩ :: ·) <$> planAll (before ++ [b]) rest
    | .error fault => .error ⟨before.length, fault⟩

/-- Places plans one after another. -/
def Placement.placeAll (policy : AdapterPolicy) (p : Placement) : List Planned → Placement
  | [] => p
  | c :: rest =>
    placeAll policy (p.place policy c.binding (c.plan.rename p.scope.standsFor)) rest

/-- Plans a program. -/
def planProgram (p : Bridge.Program) : Except Error (List Planned) := do
  let plans ← planAll [] p.bindings
  if p.result < p.bindings.length then return plans
  else throw ⟨p.result, .unboundLocal p.result⟩

/-- The program that plans become, which returns what stands for a local. -/
def assemble (policy : AdapterPolicy) (result : Local) (plans : List Planned) : Erased.Program :=
  let placed := Placement.empty.placeAll policy plans
  ⟨placed.bindings, placed.scope.standsFor result⟩

/-- A sequence of plans is that of a first binding and that of the rest. -/
theorem planAll_cons_eq_ok {before rest : List Bridge.Binding} {b : Bridge.Binding}
    {plans : List Planned} :
    planAll before (b :: rest) = .ok plans ↔ ∃ plan after,
      (Scope.direct before).plan b.type b.expr = .ok plan ∧
        planAll (before ++ [b]) rest = .ok after ∧ plans = ⟨b, plan⟩ :: after := by
  rw [planAll]
  cases (Scope.direct before).plan b.type b.expr with
  | error fault => simp
  | ok plan =>
    cases planAll (before ++ [b]) rest with
    | error error => simp [Functor.map, Except.map]
    | ok after => simp [Functor.map, Except.map, eq_comm]

/-- Plans of a list in two parts are those of the first part and those of the second. -/
theorem planAll_append_eq_ok {before bs cs : List Bridge.Binding} {plans : List Planned} :
    planAll before (bs ++ cs) = .ok plans ↔ ∃ first second,
      planAll before bs = .ok first ∧ planAll (before ++ bs) cs = .ok second ∧
        plans = first ++ second := by
  induction bs generalizing before plans with
  | nil => simp [planAll, eq_comm]
  | cons b bs ih =>
    simp only [List.cons_append, planAll_cons_eq_ok, ih]
    constructor
    · rintro ⟨plan, _, hplan, ⟨first, second, hfirst, hsecond, rfl⟩, rfl⟩
      exact ⟨⟨b, plan⟩ :: first, second, ⟨plan, first, hplan, hfirst, rfl⟩,
        by simpa using hsecond, rfl⟩
    · rintro ⟨_, second, ⟨plan, first, hplan, hfirst, rfl⟩, hsecond, rfl⟩
      exact ⟨plan, first ++ second, hplan,
        ⟨first, second, hfirst, by simpa using hsecond, rfl⟩, rfl⟩

/-- Each binding has been planned after the plans of those before it. -/
theorem exists_plan_of_planAll {bs : List Bridge.Binding} {plans : List Planned}
    (h : planAll [] bs = .ok plans) {i : Nat} {b : Bridge.Binding} (hb : bs[i]? = some b) :
    ∃ first plan second, planAll [] (bs.take i) = .ok first ∧
      (Scope.direct (bs.take i)).plan b.type b.expr = .ok plan ∧
      plans = first ++ ⟨b, plan⟩ :: second := by
  -- The bindings are those before the one at place `i`, that one, and those after it.
  obtain ⟨before, after, rfl, rfl⟩ := exists_append_of_getElem? hb
  obtain ⟨first, _, hfirst, hsecond, rfl⟩ := planAll_append_eq_ok.mp h
  obtain ⟨plan, second, hplan, -, rfl⟩ := planAll_cons_eq_ok.mp hsecond
  rw [List.take_left]
  exact ⟨first, plan, second, hfirst, hplan, rfl⟩

/-- There is one plan for each binding. -/
theorem map_binding_of_planAll {before bs : List Bridge.Binding} {plans : List Planned}
    (h : planAll before bs = .ok plans) : plans.map Planned.binding = bs := by
  induction bs generalizing before plans with
  | nil =>
    injection h with h
    rw [← h, List.map_nil]
  | cons b bs ih =>
    obtain ⟨plan, after, -, hafter, rfl⟩ := planAll_cons_eq_ok.mp h
    rw [List.map_cons, ih hafter]

namespace Placement

variable {policy : AdapterPolicy}

/-- Plans are placed part by part. -/
theorem placeAll_append (policy : AdapterPolicy) (p : Placement) (plans more : List Planned) :
    p.placeAll policy (plans ++ more) = (p.placeAll policy plans).placeAll policy more := by
  induction plans generalizing p with
  | nil => rfl
  | cons c plans ih => exact ih _

/-- Placing goes on with the scope, -/
theorem scope_prefix_placeAll (policy : AdapterPolicy) (p : Placement) (plans : List Planned) :
    p.scope <+: (p.placeAll policy plans).scope := by
  induction plans generalizing p with
  | nil => exact List.prefix_refl _
  | cons c plans ih =>
    have hplace : p.scope <+: (p.place policy c.binding (c.plan.rename p.scope.standsFor)).scope :=
      ⟨_, (scope_place p _ _).symm⟩
    exact hplace.trans (ih _)

/-- and with the code. -/
theorem prefix_placeAll (policy : AdapterPolicy) (p : Placement) (plans : List Planned) :
    p.bindings <+: (p.placeAll policy plans).bindings := by
  induction plans generalizing p with
  | nil => exact List.prefix_refl _
  | cons c rest ih => exact (prefix_place p c.binding _).trans (ih _)

theorem bindings_scope_placeAll {p : Placement} {bs : List Bridge.Binding} {plans : List Planned}
    (h : planAll (p.scope.map Bound.binding) bs = .ok plans) :
    (p.placeAll policy plans).scope.map Bound.binding = p.scope.map Bound.binding ++ bs := by
  induction bs generalizing p plans with
  | nil =>
    injection h with h
    rw [← h, placeAll, List.append_nil]
  | cons b bs ih =>
    obtain ⟨plan, after, -, hafter, rfl⟩ := planAll_cons_eq_ok.mp h
    rw [← bindings_scope_place policy p b (plan.rename p.scope.standsFor)] at hafter
    rw [placeAll, ih hafter, bindings_scope_place, List.append_assoc, List.singleton_append]

theorem length_scope_placeAll {bs : List Bridge.Binding} {plans : List Planned}
    (h : planAll [] bs = .ok plans) : (empty.placeAll policy plans).scope.length = bs.length := by
  have hscope : (empty.placeAll policy plans).scope.map Bound.binding = bs :=
    bindings_scope_placeAll (p := .empty) h
  rw [← hscope, List.length_map]

/-- Erasing bindings is planning them all, and then placing the plans. -/
theorem eraseAll_eq (p : Placement) (bs : List Bridge.Binding) :
    p.eraseAll policy bs = p.placeAll policy <$> planAll (p.scope.map Bound.binding) bs := by
  induction bs generalizing p with
  | nil => rfl
  | cons b bs ih =>
    -- The plan of a binding reads the bindings before it, but not where they have been placed.
    rw [eraseAll, erase, Scope.plan_eq_rename, planAll]
    cases (Scope.direct (p.scope.map Bound.binding)).plan b.type b.expr with
    | error fault =>
      show Except.error _ = Except.error _
      rw [List.length_map]
    | ok plan =>
      show (p.place policy b (plan.rename p.scope.standsFor)).eraseAll policy bs = _
      rw [ih, bindings_scope_place]
      cases planAll (p.scope.map Bound.binding ++ [b]) bs <;> rfl

end Placement

/-- Erasing a program is planning it, whatever the policy, and then placing the plans. -/
theorem erase_eq (policy : AdapterPolicy) (p : Bridge.Program) :
    p.erase policy = assemble policy p.result <$> planProgram p := by
  rw [Bridge.Program.erase, planProgram, Placement.eraseAll_eq]
  show ((Placement.empty.placeAll policy <$> planAll [] p.bindings) >>= _) = _
  cases hplans : planAll [] p.bindings with
  | error error => rfl
  | ok plans =>
    -- the result is in scope exactly if it is the place of a binding
    have hlength : (Placement.empty.placeAll policy plans).scope.length = p.bindings.length :=
      Placement.length_scope_placeAll hplans
    show (Except.ok (Placement.empty.placeAll policy plans) >>= _) = _ <$> (Except.ok plans >>= _)
    rw [Check.ok_bind, Check.ok_bind]
    by_cases hlt : p.result < p.bindings.length
    · rw [if_pos hlt, List.getElem?_eq_getElem (hlength ▸ hlt)]
      show Except.ok _ = Except.ok _
      rw [assemble, Scope.standsFor_of_getElem? (List.getElem?_eq_getElem (hlength ▸ hlt))]
    · have hle : (Placement.empty.placeAll policy plans).scope.length ≤ p.result := by
        rw [hlength]
        exact Nat.le_of_not_lt hlt
      rw [if_neg hlt, List.getElem?_eq_none hle]
      rfl

/-- So a program is erased if its bindings have plans and its result is bound. -/
theorem erase_eq_ok_iff {policy : AdapterPolicy} {p : Bridge.Program} {e : Erased.Program} :
    p.erase policy = .ok e ↔ ∃ plans, planAll [] p.bindings = .ok plans ∧
      p.result < p.bindings.length ∧ e = assemble policy p.result plans := by
  rw [erase_eq, planProgram]
  cases planAll [] p.bindings with
  | error error => simp [bind, Except.bind, Functor.map, Except.map]
  | ok plans =>
    rw [Check.ok_bind]
    by_cases hlt : p.result < p.bindings.length
    · simp [hlt, Functor.map, Except.map, pure, Except.pure, eq_comm]
    · simp [hlt, Functor.map, Except.map, throw, throwThe, MonadExceptOf.throw]

end ArrayBridge.Erasure
