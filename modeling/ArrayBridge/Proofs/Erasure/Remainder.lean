import ArrayBridge.Proofs.Erased.Stripping
import ArrayBridge.Proofs.Erasure.Adapters
import ArrayBridge.Proofs.Erasure.Scoping

/-!
# What is placed besides adapters

What is left of a program without its adapters can be told from the plans of its bindings alone.
The adapter policy decides where adapters are made and how many there are, and nothing else.

Main results:

* `Placement.Sound.place` — what is placed stays well typed, and the record of adapters right.
* `Placement.Sound.left_place`, `Placement.Sound.left_placeAll` — what is left of what is placed, by
  the plans.
-/

namespace ArrayBridge.Erasure

open ArrayBridge.Erased (Stripped)
open ArrayBridge.Erased.Stripped (strip)

/-! ## What plans leave -/

/-- What a generic operand is read as. -/
def Generic.number (r : Stripped) : Generic → Local
  | plain l => r.number l
  | adapted source => r.number source.array + 1

/-- The bindings that the code of a plan leaves, locals being read as they are numbered before. -/
def Plan.kept (r : Stripped) : Plan → List Erased.Binding
  | .bind type expr => [⟨type, expr.rename r.number⟩]
  | .use type q demand => [⟨type, (demand.rename r.number).expr (q.number r)⟩]
  | .adapt _ => []
  | .adaptFresh k array => [⟨.array k, array.rename r.number⟩]

/-- What a binding is read as, by its plan. -/
def Plan.number (r : Stripped) : Plan → Local
  | .bind .. | .use .. => 2 * r.kept.length
  | .adapt source => r.number source.array + 1
  | .adaptFresh .. => 2 * r.kept.length + 1

/-- What is left once the code of a plan follows. -/
def Plan.leave (r : Stripped) (plan : Plan) : Stripped :=
  ⟨r.kept ++ plan.kept r, r.numbers ++ [plan.number r]⟩

/-- What is left once the code of plans follows. -/
def leaveAll (r : Stripped) (plans : List Planned) : Stripped :=
  plans.foldl (fun r c => c.plan.leave r) r

namespace GenericUse

/-- A generic operation is no adapter. -/
theorem wrapped?_expr (use : GenericUse) (l : Local) : (use.expr l).wrapped? = none := by
  cases use <;> rfl

theorem rename_expr (f : Local → Local) (use : GenericUse) (l : Local) :
    (use.expr l).rename f = (use.rename f).expr (f l) := by
  cases use <;> rfl

theorem rename_rename (f g : Local → Local) (use : GenericUse) :
    (use.rename f).rename g = use.rename (g ∘ f) := by
  cases use <;> rfl

theorem rename_congr {f g : Local → Local} {use : GenericUse}
    (h : ∀ l ∈ use.usedLocals, f l = g l) : use.rename f = use.rename g := by
  cases use <;> simp_all [rename, usedLocals]

end GenericUse

namespace Scope

variable {scope : Scope} {t : Bridge.Ty} {expr : Bridge.Expr}

/-- Nor is a construction. -/
theorem ConstructsArray.wrapped? {k : Kind} {size : Local} {element : Option Local}
    {array : Erased.Expr} (h : scope.ConstructsArray k size element array) :
    array.wrapped? = none := by
  cases h <;> rfl

/-- The expression of a plan makes no adapter. -/
theorem wrapped?_of_bind {type : Erased.Ty} {e : Erased.Expr}
    (h : scope.Plans t expr (.bind type e)) : e.wrapped? = none := by
  cases h with
  | construct h => exact h.wrapped?
  | _ => rfl

theorem wrapped?_of_adaptFresh {k : Kind} {array : Erased.Expr}
    (h : scope.Plans t expr (.adaptFresh k array)) : array.wrapped? = none := by
  cases h with
  | constructView h => exact h.wrapped?

end Scope

/-! ## What has been placed -/

/-- Whether every local is read only by bindings that come after it. -/
def InOrder (bs : List Erased.Binding) : Prop :=
  ∀ (i : Local) (b : Erased.Binding), bs[i]? = some b → ∀ l ∈ b.expr.usedLocals, l < i

namespace Placement

/-- What holds of everything that is placed: it is well typed, tuples apart, and the record of
adapters is right. -/
structure Sound (p : Placement) : Prop where
  typed : p.Typed fun _ _ => True
  fit : p.AdaptersFit

variable {policy : AdapterPolicy} {p p' : Placement} {b : Bridge.Binding} {plan : Plan}

theorem sound_empty : empty.Sound := ⟨typed_empty, adaptersFit_empty⟩

/-- Placing an accepted binding keeps all that is known of a placement. -/
theorem Sound.place (hp : p.Sound) (h : p.scope.plan b.type b.expr = .ok plan) :
    (p.place policy b plan).Sound where
  typed := (hp.typed.erase (fun _ _ _ _ _ => trivial) (erase_eq_ok.mpr ⟨plan, h, rfl⟩)).1
  fit := hp.fit.place (Scope.plans_of_plan h)

/-- What stands for a bridge local has been placed. -/
theorem Sound.erased_lt (hp : p.Sound) {c : Bound} (hc : c ∈ p.scope) :
    c.erased < p.bindings.length := by
  obtain ⟨t, ht, -⟩ := hp.typed.scope c hc
  have hlt := (List.getElem?_eq_some_iff.mp ht).1
  rwa [types, List.length_map] at hlt

/-- What stands for a local has been placed. -/
theorem Sound.lt_of_binds (hp : p.Sound) {l e : Local} {t : Bridge.Ty} (h : p.scope.Binds l t e) :
    l < p.scope.length ∧ e < p.bindings.length := by
  obtain ⟨c, hc, -, rfl⟩ := h
  exact ⟨(List.getElem?_eq_some_iff.mp hc).1, hp.erased_lt (List.mem_of_getElem? hc)⟩

theorem Typed.inOrder {tuples : List Erased.Ty → Erased.Binding → Prop}
    (hp : p.Typed tuples) : InOrder p.bindings :=
  fun _ _ hc _ hl => Erased.Expr.lt_of_operandsTyped hp.operands hc hl

theorem Sound.standsFor_lt (hp : p.Sound) {l : Local} (hl : l < p.scope.length) :
    p.scope.standsFor l < p.bindings.length := by
  rw [Scope.standsFor_of_getElem? (List.getElem?_eq_getElem hl)]
  exact hp.erased_lt (List.getElem_mem hl)

/-! ## What is left of it -/

/-- What is left of what has been placed, once adapters are left out. The bridge locals are numbered
by what stands for them. -/
def left (p : Placement) : Stripped :=
  ⟨(strip p.bindings).kept, p.scope.map fun c => (strip p.bindings).number c.erased⟩

/-- Numbers of what is left are those of the stripped program. -/
theorem number_left {l : Local} (hl : l < p.scope.length) :
    p.left.number l = (strip p.bindings).number (p.scope.standsFor l) := by
  have hc : p.scope[l]? = some p.scope[l] := List.getElem?_eq_getElem hl
  rw [Scope.standsFor_of_getElem? hc, left, Stripped.number, List.getD_eq_getElem?_getD,
    List.getElem?_map, hc]
  rfl

/-- Operands are read as in the program that is left. -/
theorem rename_left {e : Erased.Expr} (h : ∀ l ∈ e.usedLocals, l < p.scope.length) :
    (e.rename p.scope.standsFor).rename (strip p.bindings).number = e.rename p.left.number := by
  rw [Erased.Expr.rename_rename]
  exact Erased.Expr.rename_congr fun l hl => (number_left (h l hl)).symm

/-- What adapts an array is left out, and is numbered next to the array, made now or before. -/
theorem Sound.strip_adapter (policy : AdapterPolicy) (source : ArraySource) (hp : p.Sound)
    (h : p.scope.Binds source.source (.wrapper source.kind) source.array) :
    (strip (p.adapter policy source).2.bindings).kept = (strip p.bindings).kept ∧
      (strip (p.adapter policy source).2.bindings).number (p.adapter policy source).1 =
        (strip p.bindings).number source.array + 1 := by
  obtain ⟨-, hmade, hbindings⟩ := hp.fit.adapter policy source h
  have htyped := (hp.typed.adapter policy (hp.typed.hasHead_of_binds h)).typed
  have hlt := htyped.inOrder _ _ hmade source.array List.mem_cons_self
  refine ⟨?_, ?_⟩
  · -- the adapter is on record, or placed now and left out again
    rcases hbindings with hsame | hmore
    · rw [hsame]
    · rw [hmore]
      exact (Stripped.strip_concat_of_wrapped?_eq_some p.bindings rfl).1
  · rw [Stripped.number_strip_wrapped hmade rfl hlt,
      Stripped.number_strip_prefix (grows_adapter p source).bindings (hp.lt_of_binds h).2]

/-- What a generic operand is read as does not depend on where its adapter is. -/
theorem Sound.strip_generic (policy : AdapterPolicy) {q : Generic} (hp : p.Sound)
    (hq : q.usedLocal < p.scope.length)
    (hsource : ∀ source, q = .adapted source → (Scope.direct (p.scope.map Bound.binding)).Binds
      source.source (.wrapper source.kind) source.array) :
    (strip (p.generic policy (q.rename p.scope.standsFor)).2.bindings).kept =
        (strip p.bindings).kept ∧
      (strip (p.generic policy (q.rename p.scope.standsFor)).2.bindings).number
          (p.generic policy (q.rename p.scope.standsFor)).1 = q.number p.left := by
  cases q with
  | plain l => exact ⟨rfl, (number_left hq).symm⟩
  | adapted source =>
    obtain ⟨hkept, hnumber⟩ := hp.strip_adapter policy (source.rename p.scope.standsFor)
      (Scope.binds_of_direct (hsource source rfl))
    have hleft : p.left.number source.array = _ := number_left hq
    exact ⟨hkept, by rw [Generic.number, hleft]; exact hnumber⟩

/-- The code of a plan leaves what the plan tells, under either policy. -/
theorem Sound.strip_code (policy : AdapterPolicy) (hp : p.Sound)
    (hplans : (Scope.direct (p.scope.map Bound.binding)).Plans b.type b.expr plan) :
    (strip (p.code policy (plan.rename p.scope.standsFor)).2.bindings).kept =
        (strip p.bindings).kept ++ plan.kept p.left ∧
      (strip (p.code policy (plan.rename p.scope.standsFor)).2.bindings).number
          (p.code policy (plan.rename p.scope.standsFor)).1 = plan.number p.left := by
  have hused := Scope.lt_length_of_plans_direct hplans
  cases plan with
  | bind type expr =>
    have hnone : (expr.rename p.scope.standsFor).wrapped? = none := by
      rw [Erased.Expr.wrapped?_rename, Scope.wrapped?_of_bind hplans, Option.map_none]
    obtain ⟨hkept, hnumber⟩ := Stripped.strip_concat_of_wrapped?_eq_none p.bindings
      (b := ⟨type, expr.rename p.scope.standsFor⟩) hnone
    rw [Plan.kept, ← rename_left hused]
    exact ⟨hkept, hnumber⟩
  | use type q demand =>
    -- the operand is placed first, and the use of it reads it by its number
    obtain ⟨hkept₁, hnumber₁⟩ := hp.strip_generic policy (hused _ List.mem_cons_self)
      fun source hq => Scope.binds_of_source? hplans (by rw [hq]; rfl)
    have hgrows : p.Grows (p.generic policy (q.rename p.scope.standsFor)).2 := grows_generic p _
    obtain ⟨hkept, hnumber⟩ := Stripped.strip_concat_of_wrapped?_eq_none
      (p.generic policy (q.rename p.scope.standsFor)).2.bindings
      (b := ⟨type, (demand.rename p.scope.standsFor).expr
        (p.generic policy (q.rename p.scope.standsFor)).1⟩) (GenericUse.wrapped?_expr _ _)
    have hothers : (demand.rename p.scope.standsFor).rename
        (strip (p.generic policy (q.rename p.scope.standsFor)).2.bindings).number =
          demand.rename p.left.number := by
      rw [GenericUse.rename_rename]
      refine GenericUse.rename_congr fun l hl => ?_
      have hlt := hused l (List.mem_cons_of_mem _ hl)
      rw [number_left hlt]
      exact Stripped.number_strip_prefix hgrows.bindings (hp.standsFor_lt hlt)
    rw [GenericUse.rename_expr, hothers, hnumber₁, hkept₁] at hkept
    rw [hkept₁] at hnumber
    exact ⟨hkept, hnumber⟩
  | adapt source =>
    have hdirect := Scope.binds_of_source? hplans rfl
    have hstrip := hp.strip_generic policy (q := .adapted source) (hused _ List.mem_cons_self)
      (fun _ h => by injection h with h; exact h ▸ hdirect)
    rw [Plan.kept, List.append_nil]
    exact hstrip
  | adaptFresh k array =>
    have hnone : (array.rename p.scope.standsFor).wrapped? = none := by
      rw [Erased.Expr.wrapped?_rename, Scope.wrapped?_of_adaptFresh hplans, Option.map_none]
    obtain ⟨hkept, hnumber⟩ := Stripped.strip_concat_of_wrapped?_eq_none p.bindings
      (b := ⟨.array k, array.rename p.scope.standsFor⟩) hnone
    -- the adapter follows its array
    obtain ⟨hkept', hnumber'⟩ := Stripped.strip_concat_of_wrapped?_eq_some
      (p.bindings ++ [⟨.array k, array.rename p.scope.standsFor⟩])
      (b := adapterBinding k p.bindings.length) rfl
    rw [List.length_append] at hnumber'
    rw [Plan.rename, code_adaptFresh policy hp.fit, Plan.kept, ← rename_left hused]
    dsimp only
    rw [List.append_cons]
    exact ⟨hkept'.trans hkept, hnumber'.trans (congrArg (· + 1) hnumber)⟩

/-- Placing the plan of a binding leaves what the plan leaves, under either policy. -/
theorem Sound.left_place (policy : AdapterPolicy) (hp : p.Sound)
    (hplans : (Scope.direct (p.scope.map Bound.binding)).Plans b.type b.expr plan) :
    (p.place policy b (plan.rename p.scope.standsFor)).left = plan.leave p.left := by
  obtain ⟨hkept, hnumber⟩ := hp.strip_code policy hplans
  -- what has been bound before keeps its number
  have hold : (p.scope.map fun c =>
      (strip (p.place policy b (plan.rename p.scope.standsFor)).bindings).number c.erased) =
        p.left.numbers :=
    List.map_congr_left fun c hc =>
      Stripped.number_strip_prefix (prefix_place p b _) (hp.erased_lt hc)
  rw [left, scope_place, List.map_append, hold, List.map_singleton]
  exact congrArg₂ Stripped.mk hkept (congrArg (p.left.numbers ++ [·]) hnumber)

/-- Placing the plans of bindings leaves what the plans leave, under either policy. -/
theorem Sound.left_placeAll (policy : AdapterPolicy) {bs : List Bridge.Binding}
    {plans : List Planned} (hp : p.Sound)
    (hplans : planAll (p.scope.map Bound.binding) bs = .ok plans) :
    (p.placeAll policy plans).left = leaveAll p.left plans := by
  induction bs generalizing p plans with
  | nil =>
    injection hplans with hplans
    rw [← hplans]
    rfl
  | cons b bs ih =>
    obtain ⟨plan, after, hplan, hafter, rfl⟩ := planAll_cons_eq_ok.mp hplans
    -- what one binding leaves does not depend on where it is placed, nor does what the rest leaves
    rw [leaveAll, List.foldl_cons, ← hp.left_place policy (Scope.plans_of_plan hplan)]
    refine ih (hp.place (Scope.plan_of_direct hplan)) ?_
    rw [bindings_scope_place]
    exact hafter

end Placement

/-- What is left of an erased program without its adapters is told by the plans of its bindings. -/
theorem withoutAdapters_assemble (policy : AdapterPolicy) {bs : List Bridge.Binding}
    {result : Local} {plans : List Planned} (hplans : planAll [] bs = .ok plans)
    (hresult : result < bs.length) :
    (assemble policy result plans).withoutAdapters =
      ⟨(leaveAll ⟨[], []⟩ plans).kept, (leaveAll ⟨[], []⟩ plans).number result⟩ := by
  have hleft : (Placement.empty.placeAll policy plans).left = leaveAll ⟨[], []⟩ plans :=
    Placement.sound_empty.left_placeAll policy hplans
  have hlt : result < (Placement.empty.placeAll policy plans).scope.length := by
    rw [Placement.length_scope_placeAll hplans]
    exact hresult
  rw [← hleft, Placement.number_left hlt]
  rfl

end ArrayBridge.Erasure
