import ArrayBridge.Proofs.Erased.Renaming
import ArrayBridge.Proofs.Erasure.Plans

/-!
# Plans do not depend on the numbers of erased locals

A binding is checked, and its code chosen, by the declared types of the locals before it. Which
erased locals stand for these only shows in the operands of the code. So there is one plan of a
binding, made as if every local stood for itself, and the plan made in any scope is a renaming of
it.

Main results:

* `Scope.plan_rename` — renaming a scope renames the plans made in it.
* `Scope.eq_rename_direct` — every scope is a renaming of the one in which locals stand for
  themselves.
* `Scope.exists_binds_of_plans` — a plan reads only what stands for a local in scope.
-/

namespace ArrayBridge.Erasure

/-! ## Renaming -/

/-- A binding for which another erased local stands. -/
def Bound.rename (f : Local → Local) (b : Bound) : Bound := { b with erased := f b.erased }

/-- A scope for whose bindings other erased locals stand. -/
def Scope.rename (f : Local → Local) (scope : Scope) : Scope := scope.map (Bound.rename f)

/-- An array for which another erased local stands. -/
def ArraySource.rename (f : Local → Local) (s : ArraySource) : ArraySource :=
  { s with array := f s.array }

/-- An operand for which another erased local stands. -/
def Generic.rename (f : Local → Local) : Generic → Generic
  | plain l => plain (f l)
  | adapted source => adapted (source.rename f)

/-- A use of a generic value whose other operands are other locals. -/
def GenericUse.rename (f : Local → Local) : GenericUse → GenericUse
  | size => size
  | get index => get (f index)
  | set index value => set (f index) (f value)
  | typeTest d => typeTest d
  | typeOf => typeOf
  | copy k => copy k

/-- A plan whose operands are other erased locals. -/
def Plan.rename (f : Local → Local) : Plan → Plan
  | .bind type expr => .bind type (expr.rename f)
  | .use type operand demand => .use type (operand.rename f) (demand.rename f)
  | .adapt source => .adapt (source.rename f)
  | .adaptFresh k array => .adaptFresh k (array.rename f)

@[simp] theorem Bound.binding_rename (f : Local → Local) (b : Bound) :
    (b.rename f).binding = b.binding := rfl

@[simp] theorem Bound.erased_rename (f : Local → Local) (b : Bound) :
    (b.rename f).erased = f b.erased := rfl

/-! ## Checks in a renamed scope -/

namespace Scope

variable (f : Local → Local) (scope : Scope)

theorem bound_rename (l : Local) :
    (scope.rename f).bound l = Bound.rename f <$> scope.bound l := by
  rw [bound, bound, rename, List.getElem?_map]
  cases scope[l]? <;> rfl

/-- Renaming erased locals does not touch the checks, which are on declared types. -/
theorem expect_rename (purpose : Purpose) (l : Local) (t : Bridge.Ty) :
    (scope.rename f).expect purpose l t = f <$> scope.expect purpose l t := by
  rw [expect, expect, bound_rename, map_bind, bind_map_left]
  congr 1
  funext b
  by_cases ht : b.binding.type = t
  · simp [ht]
  · rw [if_neg ht, Bound.binding_rename, if_neg ht]
    rfl

theorem element_rename (purpose : Purpose) (l : Local) :
    (scope.rename f).element purpose l = f <$> scope.element purpose l := by
  rw [element, element, bound_rename, map_bind, bind_map_left]
  congr 1
  funext b
  rw [Bound.binding_rename]
  cases b.binding.type <;> rfl

theorem generic_rename (l : Local) :
    (scope.rename f).generic l = Generic.rename f <$> scope.generic l := by
  rw [generic, generic, bound_rename, map_bind, bind_map_left]
  congr 1
  funext b
  rw [Bound.binding_rename]
  cases b.binding.type <;> rfl

theorem sequence_rename (purpose : Purpose) (l : Local) :
    (scope.rename f).sequence purpose l = Generic.rename f <$> scope.sequence purpose l := by
  rw [sequence, sequence, bound_rename, map_bind, bind_map_left]
  congr 1
  funext b
  rw [Bound.binding_rename]
  cases b.binding.type <;> rfl

/-- Whether an element is the default is seen in its binding, which renaming keeps. -/
theorem constructArray_rename (k : Kind) (size : Local) (element : Option Local) :
    (scope.rename f).constructArray k size element =
      Erased.Expr.rename f <$> scope.constructArray k size element := by
  rw [constructArray, constructArray, expect_rename, map_bind, bind_map_left]
  congr 1
  funext n
  cases element with
  | none => rfl
  | some l =>
    simp only [expect_rename, bound_rename, map_bind, bind_map_left]
    congr 1
    funext e
    congr 1
    funext b
    rw [Bound.binding_rename]
    -- a literal zero is looked for in the binding, which is not renamed
    cases b.binding.expr with
    | primLit p => cases hz : p.isZero <;> simp [hz, Erased.Expr.rename]
    | _ => rfl

theorem offset_rename (k : Kind) (l : Option Local) :
    (scope.rename f).offset k l = Erased.Operand.rename f <$> scope.offset k l := by
  cases l with
  | none => rfl
  | some l =>
    simp only [offset, expect_rename, map_bind, bind_map_left, map_pure]
    rfl

theorem copyLength_rename (k : Kind) (l : Option Local) :
    (scope.rename f).copyLength k l = Erased.CopyLength.rename f <$> scope.copyLength k l := by
  cases l with
  | none => rfl
  | some l =>
    simp only [copyLength, expect_rename, map_bind, bind_map_left, map_pure]
    rfl

/-! ## Plans in a renamed scope -/

/-- The plan of a call in a renamed scope is its plan, renamed. -/
theorem planCall_rename (type : Bridge.Ty) (k : Kind) (call : Bridge.Call) :
    (scope.rename f).planCall type k call = Plan.rename f <$> scope.planCall type k call := by
  cases call with
  -- what is constructed is adapted at once if it is bound at an object type
  | construct size element =>
    simp only [planCall, constructArray_rename, map_bind, bind_map_left, map_pure]
    cases type.isObject <;> simp [Plan.rename]
  | get | set | length | copyTo | toGenericView | fromGenericView =>
    simp only [planCall, expect_rename, offset_rename, copyLength_rename, sequence_rename,
      map_bind, bind_map_left, map_pure]
    rfl

/-- The plan of an expression in a renamed scope is its plan, renamed; the fault is the same. -/
theorem plan_rename (type : Bridge.Ty) (expr : Bridge.Expr) :
    (scope.rename f).plan type expr = Plan.rename f <$> scope.plan type expr := by
  cases expr with
  | var l =>
    simp only [Scope.plan, bound_rename, map_bind, bind_map_left]
    congr 1
    funext b
    rw [Bound.binding_rename]
    cases b.binding.type <;> cases type.isObject <;> simp only [map_bind, map_pure] <;> rfl
  | intLit | primLit | reflective | sequenceLit =>
    simp only [Scope.plan, map_bind, map_pure]
    rfl
  | tuple items =>
    -- each item is looked up on its own
    have hitems : (items.mapM fun l => Bound.erased <$> (scope.rename f).bound l) =
        List.map f <$> items.mapM fun l => Bound.erased <$> scope.bound l := by
      induction items with
      | nil => rfl
      | cons l items ih =>
        rw [List.mapM_cons, List.mapM_cons, ih, bound_rename]
        simp only [map_bind, bind_map_left, map_pure, List.map_cons, Bound.erased_rename]
    simp only [Scope.plan, hitems, map_bind, bind_map_left, map_pure]
    rfl
  | call k call => exact planCall_rename f scope type k call
  | genericSize | genericGet | genericSet | typeOf =>
    simp only [Scope.plan, expect_rename, element_rename, sequence_rename, generic_rename,
      map_bind, bind_map_left, map_pure]
    rfl
  | typeTest l d =>
    simp only [Scope.plan, bound_rename, generic_rename, map_bind, bind_map_left]
    congr 1
    funext _
    congr 1
    funext b
    rw [Bound.binding_rename]
    cases testIsStatic b.binding.type d with
    | true => rfl
    | false =>
      simp only [Bool.false_eq_true, if_false, map_bind, map_pure]
      rfl

/-! ## Locals that stand for themselves -/

/-- The scope of bindings in which every local stands for itself. -/
def direct (bindings : List Bridge.Binding) : Scope := bindings.mapIdx fun i b => ⟨b, i⟩

/-- The erased local that stands for a bridge local. -/
def standsFor (l : Local) : Local := (scope[l]?.map Bound.erased).getD l

variable {scope}

/-- In the direct scope every local stands for itself. -/
theorem getElem?_direct (bindings : List Bridge.Binding) (l : Local) :
    (direct bindings)[l]? = bindings[l]?.map (⟨·, l⟩) :=
  List.getElem?_mapIdx

theorem standsFor_of_getElem? {l : Local} {b : Bound} (h : scope[l]? = some b) :
    scope.standsFor l = b.erased := by
  rw [standsFor, h]
  rfl

/-- Every scope is a renaming of the one in which locals stand for themselves. -/
theorem eq_rename_direct (scope : Scope) :
    scope = (direct (scope.map Bound.binding)).rename scope.standsFor := by
  refine List.ext_getElem? fun l => ?_
  rw [rename, List.getElem?_map, getElem?_direct, List.getElem?_map]
  cases h : scope[l]? with
  | none => rfl
  | some b =>
    show some b = some ⟨b.binding, scope.standsFor l⟩
    rw [standsFor_of_getElem? h]

/-- So the plan of a binding is that of the scope in which locals stand for themselves, renamed. -/
theorem plan_eq_rename (scope : Scope) (type : Bridge.Ty) (expr : Bridge.Expr) :
    scope.plan type expr =
      Plan.rename scope.standsFor <$> (direct (scope.map Bound.binding)).plan type expr := by
  rw [← plan_rename, ← eq_rename_direct]

/-- So a plan is made once, with the program's own locals, and renamed for each placement. -/
theorem plan_of_direct {type : Bridge.Ty} {expr : Bridge.Expr} {plan : Plan}
    (h : (direct (scope.map Bound.binding)).plan type expr = .ok plan) :
    scope.plan type expr = .ok (plan.rename scope.standsFor) := by
  rw [plan_eq_rename, h]
  rfl

/-- A local of the direct scope stands for itself. -/
theorem binds_direct_iff {bindings : List Bridge.Binding} {l e : Local} {t : Bridge.Ty} :
    (direct bindings).Binds l t e ↔ (∃ b, bindings[l]? = some b ∧ b.type = t) ∧ e = l := by
  constructor
  · rintro ⟨b, hb, rfl, rfl⟩
    rw [getElem?_direct] at hb
    obtain ⟨c, hc, rfl⟩ := Option.map_eq_some_iff.mp hb
    exact ⟨⟨c, hc, rfl⟩, rfl⟩
  · rintro ⟨⟨b, hb, rfl⟩, rfl⟩
    exact ⟨⟨b, e⟩, by rw [getElem?_direct, hb]; rfl, rfl, rfl⟩

/-- What is declared in the direct scope is declared in every scope of the same bindings. -/
theorem binds_of_direct {l e : Local} {t : Bridge.Ty}
    (h : (direct (scope.map Bound.binding)).Binds l t e) : scope.Binds l t (scope.standsFor e) := by
  obtain ⟨⟨b, hb, rfl⟩, rfl⟩ := binds_direct_iff.mp h
  rw [List.getElem?_map] at hb
  obtain ⟨c, hc, rfl⟩ := Option.map_eq_some_iff.mp hb
  exact ⟨c, hc, rfl, (standsFor_of_getElem? hc).symm⟩

end Scope

/-! ## What a plan reads -/

/-- The erased local of an operand. -/
def Generic.usedLocal : Generic → Local
  | plain l => l
  | adapted source => source.array

/-- The other operands of a use. -/
def GenericUse.usedLocals : GenericUse → List Local
  | size | typeTest _ | typeOf | copy _ => []
  | get index => [index]
  | set index value => [index, value]

theorem GenericUse.usedLocals_expr (use : GenericUse) (l : Local) :
    (use.expr l).usedLocals = l :: use.usedLocals := by
  cases use <;> rfl

/-- The erased locals that the code of a plan reads, apart from its own. -/
def Plan.usedLocals : Plan → List Local
  | .bind _ expr | .adaptFresh _ expr => expr.usedLocals
  | .use _ operand demand => operand.usedLocal :: demand.usedLocals
  | .adapt source => [source.array]

/-- The array that a plan adapts, unless it is a fresh one. -/
def Plan.source? : Plan → Option ArraySource
  | .use _ (.adapted source) _ | .adapt source => some source
  | _ => none

namespace Scope

variable {scope : Scope} {type : Bridge.Ty} {expr : Bridge.Expr} {plan : Plan}

/-- What stands for a local is bound for it. -/
theorem Stands.binds {l : Local} {t : Bridge.Ty} {q : Generic} (h : scope.Stands l t q) :
    scope.Binds l t q.usedLocal := by
  cases h with
  | adapted h => exact h
  | plain h _ => exact h

/-- An offset that is a local is a bound one. -/
theorem Offset.exists_binds {o : Option Local} {o' : Erased.Operand} (h : scope.Offset o o') :
    ∀ l ∈ o'.usedLocals, ∃ j t, scope.Binds j t l := by
  cases h with
  | omitted => simp [Erased.Operand.usedLocals]
  | given h => simpa [Erased.Operand.usedLocals] using ⟨_, _, h⟩

theorem Length.exists_binds {n : Option Local} {n' : Erased.CopyLength} (h : scope.Length n n') :
    ∀ l ∈ n'.usedLocals, ∃ j t, scope.Binds j t l := by
  cases h with
  | omitted => simp [Erased.CopyLength.usedLocals]
  | given h => simpa [Erased.CopyLength.usedLocals, Erased.Operand.usedLocals] using ⟨_, _, h⟩

/-- A construction reads bound locals only. -/
theorem ConstructsArray.exists_binds {k : Kind} {size : Local} {element : Option Local}
    {array : Erased.Expr} (h : scope.ConstructsArray k size element array) :
    ∀ l ∈ array.usedLocals, ∃ j t, scope.Binds j t l := by
  cases h with
  | bare hsize | zero hsize => simpa [Erased.Expr.usedLocals] using ⟨_, _, hsize⟩
  | fill hsize hl => simpa [Erased.Expr.usedLocals] using ⟨⟨_, _, hsize⟩, ⟨_, _, hl⟩⟩

/-- A plan reads only what stands for a local in scope. -/
theorem exists_binds_of_plans (h : scope.Plans type expr plan) :
    ∀ l ∈ plan.usedLocals, ∃ j t, scope.Binds j t l := by
  cases h with
  | intLit | primLit | reflective | staticTest | sequenceLit =>
    simp [Plan.usedLocals, Erased.Expr.usedLocals]
  | var h | view h | toGenericView h | length h =>
    simpa [Plan.usedLocals, Erased.Expr.usedLocals] using ⟨_, _, h⟩
  | tuple h =>
    intro l hl
    obtain ⟨j, -, t, ht⟩ := exists_of_forall₂_right h hl
    exact ⟨j, t, ht⟩
  | construct h | constructView h => exact h.exists_binds
  | get ha hi =>
    simpa [Plan.usedLocals, Erased.Expr.usedLocals] using ⟨⟨_, _, ha⟩, ⟨_, _, hi⟩⟩
  | set ha hi hv =>
    simpa [Plan.usedLocals, Erased.Expr.usedLocals] using ⟨⟨_, _, ha⟩, ⟨_, _, hi⟩, ⟨_, _, hv⟩⟩
  | copyTo hs hd hso hdo hn =>
    -- an offset or a length that is omitted reads nothing
    intro l hl
    simp only [Plan.usedLocals, Erased.Expr.usedLocals, List.cons_append, List.mem_cons,
      List.mem_append] at hl
    rcases hl with rfl | (hl | rfl | hl) | hl
    · exact ⟨_, _, hs⟩
    · exact hso.exists_binds l hl
    · exact ⟨_, _, hd⟩
    · exact hdo.exists_binds l hl
    · exact hn.exists_binds l hl
  | fromGenericView hq | genericSize hq | typeTest hq | typeOf hq =>
    simpa [Plan.usedLocals, GenericUse.usedLocals] using ⟨_, _, hq.binds⟩
  | genericGet hq _ hi =>
    simpa [Plan.usedLocals, GenericUse.usedLocals] using ⟨⟨_, _, hq.binds⟩, ⟨_, _, hi⟩⟩
  | genericSet hq _ hi hv _ =>
    simpa [Plan.usedLocals, GenericUse.usedLocals] using
      ⟨⟨_, _, hq.binds⟩, ⟨_, _, hi⟩, ⟨_, _, hv⟩⟩

/-- A plan made as if locals stood for themselves reads only locals in scope. -/
theorem lt_length_of_plans_direct
    (h : (direct (scope.map Bound.binding)).Plans type expr plan) :
    ∀ l ∈ plan.usedLocals, l < scope.length := by
  intro l hl
  obtain ⟨j, t, hbinds⟩ := exists_binds_of_plans h l hl
  obtain ⟨-, rfl⟩ := binds_direct_iff.mp hbinds
  obtain ⟨c, hc, -, -⟩ := binds_of_direct hbinds
  exact (List.getElem?_eq_some_iff.mp hc).1

/-- What a plan adapts stands for a wrapper in scope. -/
theorem binds_of_source? {source : ArraySource} (h : scope.Plans type expr plan)
    (hsource : plan.source? = some source) :
    scope.Binds source.source (.wrapper source.kind) source.array := by
  have hstands : ∀ {l : Local} {t : Erased.Ty} {u : Bridge.Ty} {q : Generic} {demand : GenericUse},
      scope.Stands l u q → (Plan.use t q demand).source? = some source →
      scope.Binds source.source (.wrapper source.kind) source.array := by
    intro l t u q demand hq hs
    cases hq with
    | adapted h =>
      injection hs with hs
      exact hs ▸ h
    | plain h _ => cases hs
  -- An adapter is wanted for a view outright, or because a generic use needs one of its operand.
  cases h with
  | view h | toGenericView h =>
    injection hsource with hsource
    exact hsource ▸ h
  | fromGenericView hq | genericSize hq | genericGet hq | genericSet hq | typeTest hq | typeOf hq =>
    exact hstands hq hsource
  | _ => cases hsource

/-- A fresh array is adapted only at an object type. -/
theorem exists_object_of_adaptFresh {k : Kind} {array : Erased.Expr}
    (h : scope.Plans type expr (.adaptFresh k array)) : ∃ d, type = .object d := by
  cases h with
  | constructView => exact ⟨_, rfl⟩

end Scope

end ArrayBridge.Erasure
