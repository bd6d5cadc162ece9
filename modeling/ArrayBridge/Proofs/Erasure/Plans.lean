import ArrayBridge.Erasure.Plan
import ArrayBridge.Proofs.Traversal

/-!
# What a plan may be

`Scope.Plans` lists, one constructor for each case, every plan that a binding can have and what its
operands are declared as. Everything proved about erasure goes by cases on it, so the checks are
opened only here.

Main results:

* `expect_eq_ok`, `constructsArray_of_constructArray`, … — what each check lets through.
* `plans_of_plan` — a plan that is given is one that the relation lists.
* `exists_plan_iff` — a binding has a plan exactly if the relation lists one.
* `plan_var_object`, `plan_construct`, … — the plans of arrays whose operands are declared as
  they should.
-/

namespace ArrayBridge.Erasure.Scope

open Bridge (Ty Expr Call)
open Check (bind_eq_ok ok_bind pure_eq_ok)

/-! ## Operands -/

/-- A local is bound at a type, and an erased local stands for it. -/
def Binds (scope : Scope) (l : Local) (t : Ty) (e : Local) : Prop :=
  ∃ b, scope[l]? = some b ∧ b.binding.type = t ∧ b.erased = e

/-- What stands for a local of a type where a generic value is demanded: an array has to be
adapted, anything else is used as it is. -/
inductive Stands (scope : Scope) (l : Local) : Ty → Generic → Prop
  | adapted {k : Kind} {e : Local} (h : scope.Binds l (.wrapper k) e) :
    Stands scope l (.wrapper k) (.adapted ⟨k, l, e⟩)
  | plain {t : Ty} {e : Local} (h : scope.Binds l t e) (ht : ∀ k, t ≠ .wrapper k) :
    Stands scope l t (.plain e)

/-- The types of locals that may be used as generic sequences. -/
def MaySequence (t : Ty) : Prop := (∃ k, t = .wrapper k) ∨ ∃ d, t = .object d

/-- The types of locals that may be stored in generic sequences. -/
def MayElement (t : Ty) : Prop := (∃ k, t = .prim k) ∨ ∃ d, t = .object d

/-- The expression that constructs an array. An element bound to a literal zero is left to the
fresh array. -/
inductive ConstructsArray (scope : Scope) (k : Kind) (size : Local) :
    Option Local → Erased.Expr → Prop
  | bare {n : Local} (hsize : scope.Binds size .integer n) :
    ConstructsArray scope k size none (.newArray k n)
  | zero {n l : Local} {b : Bound} {p : Prim} (hsize : scope.Binds size .integer n)
    (hb : scope[l]? = some b) (ht : b.binding.type = .prim k) (he : b.binding.expr = .primLit p)
    (hp : p.isZero = true) : ConstructsArray scope k size (some l) (.newArray k n)
  | fill {n l e : Local} (hsize : scope.Binds size .integer n) (hl : scope.Binds l (.prim k) e) :
    ConstructsArray scope k size (some l) (.fillArray k n e)

/-- What stands for an offset of a copy. -/
inductive Offset (scope : Scope) : Option Local → Erased.Operand → Prop
  | omitted : Offset scope none (.const 0)
  | given {l e : Local} (h : scope.Binds l .integer e) : Offset scope (some l) (.read e)

/-- What stands for the length of a copy. -/
inductive Length (scope : Scope) : Option Local → Erased.CopyLength → Prop
  | omitted : Length scope none .remaining
  | given {l e : Local} (h : scope.Binds l .integer e) :
    Length scope (some l) (.explicit (.read e))

/-! ## Plans -/

/-- The plans of an expression bound at a type. -/
inductive Plans (scope : Scope) : Ty → Expr → Plan → Prop
  | var {t : Ty} {l e : Local} (h : scope.Binds l t e) :
    Plans scope t (.var l) (.bind (.ofBridge t) (.var e))
  | view {d : Descriptor} {k : Kind} {l e : Local} (h : scope.Binds l (.wrapper k) e) :
    Plans scope (.object d) (.var l) (.adapt ⟨k, l, e⟩)
  | intLit {n : Int64} : Plans scope .integer (.intLit n) (.bind .integer (.intLit n))
  | primLit {p : Prim} :
    Plans scope (.prim p.kind) (.primLit p) (.bind (.prim p.kind) (.primLit p))
  | tuple {t : Ty} {items es : List Local}
    (h : List.Forall₂ (fun l e => ∃ t, scope.Binds l t e) items es) :
    Plans scope t (.tuple items) (.bind (.ofBridge t) (.tuple es))
  | construct {k : Kind} {size : Local} {element : Option Local} {array : Erased.Expr}
    (h : scope.ConstructsArray k size element array) :
    Plans scope (.wrapper k) (.call k (.construct size element)) (.bind (.array k) array)
  | constructView {d : Descriptor} {k : Kind} {size : Local} {element : Option Local}
    {array : Erased.Expr} (h : scope.ConstructsArray k size element array) :
    Plans scope (.object d) (.call k (.construct size element)) (.adaptFresh k array)
  | get {k : Kind} {array index a i : Local} (ha : scope.Binds array (.wrapper k) a)
    (hi : scope.Binds index .integer i) :
    Plans scope (.prim k) (.call k (.get array index)) (.bind (.prim k) (.load k a i))
  | set {k : Kind} {array index value a i v : Local} (ha : scope.Binds array (.wrapper k) a)
    (hi : scope.Binds index .integer i) (hv : scope.Binds value (.prim k) v) :
    Plans scope .unit (.call k (.set array index value)) (.bind .unit (.store k a i v))
  | length {k : Kind} {array a : Local} (ha : scope.Binds array (.wrapper k) a) :
    Plans scope .integer (.call k (.length array)) (.bind .integer (.arrayLength k a))
  | copyTo {k : Kind} {source destination s d : Local}
    {sourceOffset destinationOffset length : Option Local} {so dof : Erased.Operand}
    {n : Erased.CopyLength} (hs : scope.Binds source (.wrapper k) s)
    (hd : scope.Binds destination (.wrapper k) d) (hso : scope.Offset sourceOffset so)
    (hdof : scope.Offset destinationOffset dof) (hn : scope.Length length n) :
    Plans scope .unit
      (.call k (.copyTo source destination sourceOffset destinationOffset length))
      (.bind .unit (.arrayCopy k s so d dof n))
  | toGenericView {d : Descriptor} {k : Kind} {array a : Local}
    (ha : scope.Binds array (.wrapper k) a) :
    Plans scope (.object d) (.call k (.toGenericView array)) (.adapt ⟨k, array, a⟩)
  | fromGenericView {k : Kind} {sequence : Local} {t : Ty} {q : Generic}
    (hq : scope.Stands sequence t q) (ht : MaySequence t) :
    Plans scope (.wrapper k) (.call k (.fromGenericView sequence)) (.use (.array k) q (.copy k))
  | reflective {t : Ty} {k : Kind} {op : Operation} :
    Plans scope t (.reflective k op) (.bind (.ofBridge t) (.invokeWrapper k op))
  | genericSize {sequence : Local} {t : Ty} {q : Generic} (hq : scope.Stands sequence t q)
    (ht : MaySequence t) :
    Plans scope .integer (.genericSize sequence) (.use .integer q .size)
  | genericGet {d : Descriptor} {sequence index i : Local} {t : Ty} {q : Generic}
    (hq : scope.Stands sequence t q) (ht : MaySequence t) (hi : scope.Binds index .integer i) :
    Plans scope (.object d) (.genericGet sequence index) (.use (.object d) q (.get i))
  | genericSet {sequence index value i v : Local} {t u : Ty} {q : Generic}
    (hq : scope.Stands sequence t q) (ht : MaySequence t) (hi : scope.Binds index .integer i)
    (hv : scope.Binds value u v) (hu : MayElement u) :
    Plans scope .unit (.genericSet sequence index value) (.use .unit q (.set i v))
  | staticTest {l e : Local} {k : Kind} (h : scope.Binds l (.wrapper k) e) :
    Plans scope (.prim .boolean) (.typeTest l (.primitiveArray k))
      (.bind (.prim .boolean) (.primLit (.boolean true)))
  | typeTest {l : Local} {d : Descriptor} {t : Ty} {q : Generic} (hq : scope.Stands l t q) :
    Plans scope (.prim .boolean) (.typeTest l d) (.use (.prim .boolean) q (.typeTest d))
  | typeOf {l : Local} {t : Ty} {q : Generic} (hq : scope.Stands l t q) :
    Plans scope .descriptor (.typeOf l) (.use .descriptor q .typeOf)
  | sequenceLit {d element : Descriptor} {items : List Boxed} :
    Plans scope (.object d) (.sequenceLit element items)
      (.bind (.object d) (.sequenceLit element items))

/-! ## Checks -/

variable {scope : Scope} {l e : Local}

theorem bound_eq_ok {b : Bound} : scope.bound l = .ok b ↔ scope[l]? = some b := by
  rw [bound]
  cases scope[l]? <;> simp

theorem checkResult_eq_ok {declared : Ty} {ok : Bool} {produced : Product} {u : Unit} :
    checkResult declared ok produced = .ok u ↔ ok = true := by
  cases ok <;> simp [checkResult]

/-- A local is taken under a demanded type exactly when it is bound at that type. -/
theorem expect_eq_ok {purpose : Purpose} {t : Ty} :
    scope.expect purpose l t = .ok e ↔ scope.Binds l t e := by
  simp only [expect, bind_eq_ok, bound_eq_ok]
  constructor
  · rintro ⟨b, hb, h⟩
    by_cases ht : b.binding.type = t
    · rw [if_pos ht, pure_eq_ok] at h
      exact ⟨b, hb, ht, h⟩
    · rw [if_neg ht] at h
      cases h
  · rintro ⟨b, hb, ht, he⟩
    exact ⟨b, hb, by rw [if_pos ht, pure_eq_ok, he]⟩

/-- The value of a set is bound at a primitive type or at an object type. -/
theorem binds_of_element {purpose : Purpose} (h : scope.element purpose l = .ok e) :
    ∃ t, scope.Binds l t e ∧ MayElement t := by
  simp only [element, bind_eq_ok, bound_eq_ok] at h
  obtain ⟨b, hb, h⟩ := h
  cases ht : b.binding.type with
  | prim k =>
    rw [ht, pure_eq_ok] at h
    exact ⟨_, ⟨b, hb, ht, h⟩, .inl ⟨k, rfl⟩⟩
  | object d =>
    rw [ht, pure_eq_ok] at h
    exact ⟨_, ⟨b, hb, ht, h⟩, .inr ⟨d, rfl⟩⟩
  | _ => rw [ht] at h; cases h

/-- What a generic operand is made of stands for the local that is named, at its declared type. -/
theorem stands_of_generic {q : Generic} (h : scope.generic l = .ok q) :
    ∃ b, scope[l]? = some b ∧ scope.Stands l b.binding.type q := by
  simp only [generic, bind_eq_ok, bound_eq_ok] at h
  obtain ⟨b, hb, h⟩ := h
  refine ⟨b, hb, ?_⟩
  -- what is declared as a wrapper is an array once erased, and stands for its adapter
  cases ht : b.binding.type with
  | wrapper k =>
    rw [ht, pure_eq_ok] at h
    exact h ▸ .adapted ⟨b, hb, ht, rfl⟩
  | _ =>
    rw [ht, pure_eq_ok] at h
    exact h ▸ .plain ⟨b, hb, ht, rfl⟩ (by simp)

/-- The same for a sequence, whose type must be one that may be a sequence. -/
theorem stands_of_sequence {purpose : Purpose} {q : Generic}
    (h : scope.sequence purpose l = .ok q) : ∃ t, scope.Stands l t q ∧ MaySequence t := by
  simp only [sequence, bind_eq_ok, bound_eq_ok] at h
  obtain ⟨b, hb, h⟩ := h
  cases ht : b.binding.type with
  | wrapper k =>
    rw [ht, pure_eq_ok] at h
    exact ⟨_, h ▸ .adapted ⟨b, hb, ht, rfl⟩, .inl ⟨k, rfl⟩⟩
  | object d =>
    rw [ht, pure_eq_ok] at h
    exact ⟨_, h ▸ .plain ⟨b, hb, ht, rfl⟩ (by simp), .inr ⟨d, rfl⟩⟩
  | _ => rw [ht] at h; cases h

/-- A construction without an element, or with the default one, makes a new array; any other fills
it. -/
theorem constructsArray_of_constructArray {k : Kind} {size : Local} {element : Option Local}
    {array : Erased.Expr} (h : scope.constructArray k size element = .ok array) :
    scope.ConstructsArray k size element array := by
  simp only [constructArray, bind_eq_ok, expect_eq_ok] at h
  obtain ⟨n, hn, h⟩ := h
  cases element with
  | none =>
    rw [pure_eq_ok] at h
    exact h ▸ .bare hn
  | some l =>
    simp only [bind_eq_ok, expect_eq_ok, bound_eq_ok] at h
    obtain ⟨e, he, b, hb, h⟩ := h
    -- only of a literal is it known here whether it is the default
    split at h
    · rename_i p hp
      rw [pure_eq_ok] at h
      by_cases hz : p.isZero = true
      · rw [if_pos hz] at h
        obtain ⟨b', hb', ht, -⟩ := he
        rw [hb] at hb'
        injection hb' with hbb
        exact h ▸ .zero hn hb (hbb ▸ ht) hp hz
      · rw [if_neg hz] at h
        exact h ▸ .fill hn he
    · rw [pure_eq_ok] at h
      exact h ▸ .fill hn he

/-- An omitted offset is the constant zero. -/
theorem offset_of_offset {k : Kind} {l : Option Local} {o : Erased.Operand}
    (h : scope.offset k l = .ok o) : scope.Offset l o := by
  cases l with
  | none =>
    rw [offset, pure_eq_ok] at h
    exact h ▸ .omitted
  | some l =>
    simp only [offset, bind_eq_ok, expect_eq_ok, pure_eq_ok] at h
    obtain ⟨e, he, rfl⟩ := h
    exact .given he

/-- An omitted length is what is left. -/
theorem length_of_copyLength {k : Kind} {l : Option Local} {n : Erased.CopyLength}
    (h : scope.copyLength k l = .ok n) : scope.Length l n := by
  cases l with
  | none =>
    rw [copyLength, pure_eq_ok] at h
    exact h ▸ .omitted
  | some l =>
    simp only [copyLength, bind_eq_ok, expect_eq_ok, pure_eq_ok] at h
    obtain ⟨e, he, rfl⟩ := h
    exact .given he

/-- Items that are all bound are stood for one by one. -/
private theorem forall₂_of_mapM {items es : List Local}
    (h : items.mapM (fun l => Bound.erased <$> scope.bound l) = .ok es) :
    List.Forall₂ (fun l e => ∃ t, scope.Binds l t e) items es := by
  refine (mapM_eq_ok_iff.mp h).imp fun l e he => ?_
  cases hb : scope.bound l with
  | error fault =>
    rw [hb] at he
    cases he
  | ok b =>
    rw [hb] at he
    injection he with he
    exact ⟨_, b, bound_eq_ok.mp hb, rfl, he⟩

theorem exists_object_of_isObject {t : Ty} (h : t.isObject = true) : ∃ d, t = .object d := by
  cases t with
  | object d => exact ⟨d, rfl⟩
  | _ => cases h

/-- A test is answered by the type alone if it is one of a wrapper for the class of its arrays. -/
theorem testIsStatic_iff {t : Ty} {d : Descriptor} :
    testIsStatic t d = true ↔ ∃ k, t = .wrapper k ∧ d = .primitiveArray k := by
  cases t with
  | wrapper k => cases d <;> simp [testIsStatic, Descriptor.elementKind?, eq_comm]
  | _ => simp [testIsStatic]

/-! ## Plans that are given -/

/-- The plan of a call, form by form. -/
theorem plans_of_planCall {t : Ty} {k : Kind} {call : Call} {plan : Plan}
    (h : scope.planCall t k call = .ok plan) : scope.Plans t (.call k call) plan := by
  -- of each form first the type is checked, and then the operands one by one
  cases call with
  | construct size element =>
    simp only [planCall, bind_eq_ok, checkResult_eq_ok, exists_const, pure_eq_ok] at h
    obtain ⟨hok, array, harray, rfl⟩ := h
    have hconstructs := constructsArray_of_constructArray harray
    cases t with
    | wrapper l =>
      have hkl : l = k := by simpa [Ty.isObject] using hok
      subst hkl
      exact .construct hconstructs
    | object d => exact .constructView hconstructs
    | _ => simp [Ty.isObject] at hok
  | get array index =>
    simp only [planCall, bind_eq_ok, checkResult_eq_ok, exists_const, expect_eq_ok, pure_eq_ok,
      decide_eq_true_eq] at h
    obtain ⟨rfl, a, ha, i, hi, rfl⟩ := h
    exact .get ha hi
  | set array index value =>
    simp only [planCall, bind_eq_ok, checkResult_eq_ok, exists_const, expect_eq_ok, pure_eq_ok,
      decide_eq_true_eq] at h
    obtain ⟨rfl, a, ha, i, hi, v, hv, rfl⟩ := h
    exact .set ha hi hv
  | length array =>
    simp only [planCall, bind_eq_ok, checkResult_eq_ok, exists_const, expect_eq_ok, pure_eq_ok,
      decide_eq_true_eq] at h
    obtain ⟨rfl, a, ha, rfl⟩ := h
    exact .length ha
  | copyTo source destination sourceOffset destinationOffset length =>
    simp only [planCall, bind_eq_ok, checkResult_eq_ok, exists_const, expect_eq_ok, pure_eq_ok,
      decide_eq_true_eq] at h
    obtain ⟨rfl, n, hn, s, hs, so, hso, d, hd, dof, hdof, rfl⟩ := h
    exact .copyTo hs hd (offset_of_offset hso) (offset_of_offset hdof) (length_of_copyLength hn)
  | toGenericView array =>
    simp only [planCall, bind_eq_ok, checkResult_eq_ok, exists_const, expect_eq_ok, pure_eq_ok] at h
    obtain ⟨hok, a, ha, rfl⟩ := h
    obtain ⟨d, rfl⟩ := exists_object_of_isObject hok
    exact .toGenericView ha
  | fromGenericView sequence =>
    simp only [planCall, bind_eq_ok, checkResult_eq_ok, exists_const, pure_eq_ok,
      decide_eq_true_eq] at h
    obtain ⟨rfl, q, hq, rfl⟩ := h
    obtain ⟨t, hstands, ht⟩ := stands_of_sequence hq
    exact .fromGenericView hstands ht

/-- The plan of an expression, form by form. With `exists_plan_of_plans` it is what later
proofs know of `plan`. -/
theorem plans_of_plan {t : Ty} {expr : Expr} {plan : Plan} (h : scope.plan t expr = .ok plan) :
    scope.Plans t expr plan := by
  cases expr with
  | var l =>
    simp only [Scope.plan, bind_eq_ok, bound_eq_ok] at h
    obtain ⟨b, hb, h⟩ := h
    -- an array bound as an object becomes a view, anything else keeps its type
    split at h
    · rename_i k hk hobject
      obtain ⟨d, rfl⟩ := exists_object_of_isObject hobject
      rw [pure_eq_ok] at h
      exact h ▸ .view ⟨b, hb, hk, rfl⟩
    · simp only [bind_eq_ok, checkResult_eq_ok, exists_const, pure_eq_ok, decide_eq_true_eq] at h
      obtain ⟨ht, rfl⟩ := h
      exact .var ⟨b, hb, ht, rfl⟩
  | intLit n =>
    simp only [Scope.plan, bind_eq_ok, checkResult_eq_ok, exists_const, pure_eq_ok,
      decide_eq_true_eq] at h
    obtain ⟨rfl, rfl⟩ := h
    exact .intLit
  | primLit p =>
    simp only [Scope.plan, bind_eq_ok, checkResult_eq_ok, exists_const, pure_eq_ok,
      decide_eq_true_eq] at h
    obtain ⟨rfl, rfl⟩ := h
    exact .primLit
  | tuple items =>
    -- a tuple may be bound at any type at all
    simp only [Scope.plan, bind_eq_ok, pure_eq_ok] at h
    obtain ⟨es, hes, rfl⟩ := h
    exact .tuple (forall₂_of_mapM hes)
  | call k call => exact plans_of_planCall h
  | reflective k op =>
    -- and so may what never returns
    rw [Scope.plan, pure_eq_ok] at h
    exact h ▸ .reflective
  | genericSize sequence =>
    simp only [Scope.plan, bind_eq_ok, checkResult_eq_ok, exists_const, pure_eq_ok,
      decide_eq_true_eq] at h
    obtain ⟨rfl, q, hq, rfl⟩ := h
    obtain ⟨t, hstands, ht⟩ := stands_of_sequence hq
    exact .genericSize hstands ht
  | genericGet sequence index =>
    simp only [Scope.plan, bind_eq_ok, checkResult_eq_ok, exists_const, expect_eq_ok,
      pure_eq_ok] at h
    obtain ⟨hok, i, hi, q, hq, rfl⟩ := h
    obtain ⟨d, rfl⟩ := exists_object_of_isObject hok
    obtain ⟨t, hstands, ht⟩ := stands_of_sequence hq
    exact .genericGet hstands ht hi
  | genericSet sequence index value =>
    simp only [Scope.plan, bind_eq_ok, checkResult_eq_ok, exists_const, expect_eq_ok, pure_eq_ok,
      decide_eq_true_eq] at h
    obtain ⟨rfl, i, hi, v, hv, q, hq, rfl⟩ := h
    obtain ⟨t, hstands, ht⟩ := stands_of_sequence hq
    obtain ⟨u, hu, hmay⟩ := binds_of_element hv
    exact .genericSet hstands ht hi hu hmay
  | typeTest l d =>
    simp only [Scope.plan, bind_eq_ok, checkResult_eq_ok, exists_const, bound_eq_ok,
      decide_eq_true_eq] at h
    obtain ⟨rfl, b, hb, h⟩ := h
    -- the answer is known already, or the value is asked at run time
    by_cases hstatic : testIsStatic b.binding.type d = true
    · rw [if_pos hstatic, pure_eq_ok] at h
      obtain ⟨k, hk, rfl⟩ := testIsStatic_iff.mp hstatic
      exact h ▸ .staticTest ⟨b, hb, hk, rfl⟩
    · rw [if_neg hstatic] at h
      simp only [bind_eq_ok, pure_eq_ok] at h
      obtain ⟨q, hq, rfl⟩ := h
      obtain ⟨b', -, hstands⟩ := stands_of_generic hq
      exact .typeTest hstands
  | typeOf l =>
    simp only [Scope.plan, bind_eq_ok, checkResult_eq_ok, exists_const, pure_eq_ok,
      decide_eq_true_eq] at h
    obtain ⟨rfl, q, hq, rfl⟩ := h
    obtain ⟨b, -, hstands⟩ := stands_of_generic hq
    exact .typeOf hstands
  | sequenceLit element items =>
    -- items are not compared with the element type
    simp only [Scope.plan, bind_eq_ok, checkResult_eq_ok, exists_const, pure_eq_ok] at h
    obtain ⟨hok, rfl⟩ := h
    obtain ⟨d, rfl⟩ := exists_object_of_isObject hok
    exact .sequenceLit

/-! ## Operands that pass -/

theorem Stands.exists_binds {t : Ty} {q : Generic} (h : scope.Stands l t q) :
    ∃ e, scope.Binds l t e := by
  cases h with
  | adapted h => exact ⟨_, h⟩
  | plain h _ => exact ⟨_, h⟩

/-- Whatever is bound may be demanded as a generic value. -/
theorem exists_generic {t : Ty} (h : scope.Binds l t e) : ∃ q, scope.generic l = .ok q := by
  obtain ⟨b, hb, -, -⟩ := h
  rw [generic, bound_eq_ok.mpr hb, ok_bind]
  cases b.binding.type <;> exact ⟨_, rfl⟩

/-- Whatever may be a sequence is taken as one. -/
theorem exists_sequence (purpose : Purpose) {t : Ty} (h : scope.Binds l t e)
    (ht : MaySequence t) : ∃ q, scope.sequence purpose l = .ok q := by
  obtain ⟨b, hb, hbt, -⟩ := h
  rw [sequence, bound_eq_ok.mpr hb, ok_bind, hbt]
  rcases ht with ⟨k, rfl⟩ | ⟨d, rfl⟩ <;> exact ⟨_, rfl⟩

/-- Whatever may be an element is taken as one. -/
theorem exists_element (purpose : Purpose) {t : Ty} (h : scope.Binds l t e)
    (ht : MayElement t) : ∃ v, scope.element purpose l = .ok v := by
  obtain ⟨b, hb, hbt, -⟩ := h
  rw [element, bound_eq_ok.mpr hb, ok_bind, hbt]
  rcases ht with ⟨k, rfl⟩ | ⟨d, rfl⟩ <;> exact ⟨_, rfl⟩

/-- A construction has a plan as soon as its operands are bound at their types. -/
theorem exists_constructArray {k : Kind} {size : Local} {element : Option Local}
    (hsize : ∃ n, scope.Binds size .integer n)
    (helement : ∀ l ∈ element, ∃ e, scope.Binds l (.prim k) e) :
    ∃ array, scope.constructArray k size element = .ok array := by
  obtain ⟨n, hn⟩ := hsize
  cases element with
  | none =>
    rw [constructArray, expect_eq_ok.mpr hn]
    exact ⟨_, rfl⟩
  | some l =>
    obtain ⟨e, he⟩ := helement l rfl
    obtain ⟨b, hb, -⟩ := id he
    simp only [constructArray, expect_eq_ok.mpr hn, expect_eq_ok.mpr he, bound_eq_ok.mpr hb,
      ok_bind]
    -- the element makes no difference to whether there is an expression
    cases b.binding.expr <;> exact ⟨_, rfl⟩

/-- The operands of an array that can be constructed are a size and an element of its kind. -/
theorem ConstructsArray.operands {k : Kind} {size : Local} {element : Option Local}
    {array : Erased.Expr} (h : scope.ConstructsArray k size element array) :
    (∃ n, scope.Binds size .integer n) ∧ ∀ l ∈ element, ∃ e, scope.Binds l (.prim k) e := by
  cases h with
  | bare hsize => exact ⟨⟨_, hsize⟩, by simp⟩
  | zero hsize hb ht _ _ => exact ⟨⟨_, hsize⟩, by simpa using ⟨_, _, hb, ht, rfl⟩⟩
  | fill hsize hl => exact ⟨⟨_, hsize⟩, by simpa using ⟨_, hl⟩⟩

theorem offset_eq_ok {k : Kind} {l : Option Local} {o : Erased.Operand} :
    scope.offset k l = .ok o ↔ scope.Offset l o := by
  refine ⟨offset_of_offset, fun h => ?_⟩
  cases h with
  | omitted => rfl
  | given h =>
    rw [offset, expect_eq_ok.mpr h]
    rfl

theorem copyLength_eq_ok {k : Kind} {l : Option Local} {n : Erased.CopyLength} :
    scope.copyLength k l = .ok n ↔ scope.Length l n := by
  refine ⟨length_of_copyLength, fun h => ?_⟩
  cases h with
  | omitted => rfl
  | given h =>
    rw [copyLength, expect_eq_ok.mpr h]
    rfl

/-! ## Plans of arrays -/

/-- A wrapper that is bound at an object type is adapted. -/
theorem plan_var_object {k : Kind} (d : Descriptor) (h : scope.Binds l (.wrapper k) e) :
    scope.plan (.object d) (.var l) = .ok (.adapt ⟨k, l, e⟩) := by
  obtain ⟨b, hb, ht, rfl⟩ := h
  simp only [Scope.plan, bound_eq_ok.mpr hb, ok_bind, ht, Ty.isObject]
  rfl

/-- A fresh array may be bound at its own type, and at every object type, where it is adapted. -/
theorem plan_construct {k : Kind} {size : Local} {element : Option Local} {array : Erased.Expr}
    (harray : scope.constructArray k size element = .ok array) :
    scope.plan (.wrapper k) (.call k (.construct size element)) = .ok (.bind (.array k) array) ∧
      ∀ d, scope.plan (.object d) (.call k (.construct size element)) =
        .ok (.adaptFresh k array) := by
  refine ⟨?_, fun d => ?_⟩
  · simp [Scope.plan, planCall, checkResult, harray, Ty.isObject]
    rfl
  · simp [Scope.plan, planCall, checkResult, harray, Ty.isObject]
    rfl

/-- It may be bound at its wrapper type, or at any object type as a fresh adapter. -/
theorem exists_plan_construct {k : Kind} {size : Local} {element : Option Local}
    (hsize : ∃ n, scope.Binds size .integer n)
    (helement : ∀ l ∈ element, ∃ e, scope.Binds l (.prim k) e) :
    ∃ array,
      scope.plan (.wrapper k) (.call k (.construct size element)) = .ok (.bind (.array k) array) ∧
      ∀ d, scope.plan (.object d) (.call k (.construct size element)) =
        .ok (.adaptFresh k array) := by
  obtain ⟨array, harray⟩ := exists_constructArray hsize helement
  exact ⟨array, plan_construct harray⟩

/-- A copy of a generic sequence may be bound at its own type. -/
theorem exists_plan_fromGenericView {k : Kind} {sequence : Local} {t : Ty}
    (h : ∃ e, scope.Binds sequence t e) (ht : MaySequence t) :
    ∃ q, scope.plan (.wrapper k) (.call k (.fromGenericView sequence)) =
      .ok (.use (.array k) q (.copy k)) := by
  obtain ⟨e, he⟩ := h
  obtain ⟨q, hq⟩ := exists_sequence (.member k .fromGenericView) he ht
  refine ⟨q, ?_⟩
  simp [Scope.plan, planCall, checkResult, Bridge.Call.operation, hq]
  rfl

/-- Such a copy is refused at every object type, before its operand is looked at. -/
theorem plan_fromGenericView_object (scope : Scope) (k : Kind) (sequence : Local)
    (d : Descriptor) :
    scope.plan (.object d) (.call k (.fromGenericView sequence)) =
      .error (.resultType (.object d) (.type (.wrapper k))) :=
  rfl

/-! ## Bindings that have a plan -/

/-- The plan that is given need not be the one that is listed: a literal zero element is left out
of a constructor, and a test of an array by its own class is not made. -/
theorem exists_plan_of_plans {t : Ty} {expr : Expr} {plan : Plan} (h : scope.Plans t expr plan) :
    ∃ found, scope.plan t expr = .ok found := by
  -- every check of a form passes by what its rule demands
  cases h with
  | var h =>
    obtain ⟨b, hb, rfl, -⟩ := h
    simp only [Scope.plan, bound_eq_ok.mpr hb, ok_bind]
    split
    · exact ⟨_, rfl⟩
    · rw [decide_eq_true rfl]
      exact ⟨_, rfl⟩
  | view h => exact ⟨_, plan_var_object _ h⟩
  | intLit => exact ⟨_, rfl⟩
  | primLit =>
    simp only [Scope.plan, checkResult, decide_true, if_true]
    exact ⟨_, rfl⟩
  | @tuple t items es h =>
    have hitems : items.mapM (fun l => Bound.erased <$> scope.bound l) = .ok es := by
      refine mapM_eq_ok_iff.mpr (h.imp fun l e hl => ?_)
      obtain ⟨t, b, hb, -, rfl⟩ := hl
      rw [bound_eq_ok.mpr hb]
      rfl
    simp only [Scope.plan, hitems, ok_bind]
    exact ⟨_, rfl⟩
  | construct h =>
    obtain ⟨hsize, helement⟩ := h.operands
    obtain ⟨array, hplan, -⟩ := exists_plan_construct hsize helement
    exact ⟨_, hplan⟩
  | constructView h =>
    obtain ⟨hsize, helement⟩ := h.operands
    obtain ⟨array, -, hplan⟩ := exists_plan_construct hsize helement
    exact ⟨_, hplan _⟩
  | get ha hi =>
    simp only [Scope.plan, planCall, checkResult, decide_true, if_true, ok_bind,
      expect_eq_ok.mpr ha, expect_eq_ok.mpr hi]
    exact ⟨_, rfl⟩
  | set ha hi hv =>
    simp only [Scope.plan, planCall, checkResult, decide_true, if_true, ok_bind,
      expect_eq_ok.mpr ha, expect_eq_ok.mpr hi, expect_eq_ok.mpr hv]
    exact ⟨_, rfl⟩
  | length ha =>
    simp only [Scope.plan, planCall, checkResult, decide_true, if_true, ok_bind,
      expect_eq_ok.mpr ha]
    exact ⟨_, rfl⟩
  | copyTo hs hd hso hdof hn =>
    simp only [Scope.plan, planCall, checkResult, decide_true, if_true, ok_bind,
      expect_eq_ok.mpr hs, expect_eq_ok.mpr hd, offset_eq_ok.mpr hso, offset_eq_ok.mpr hdof,
      copyLength_eq_ok.mpr hn]
    exact ⟨_, rfl⟩
  | toGenericView ha =>
    simp only [Scope.plan, planCall, checkResult, Ty.isObject, if_true, ok_bind,
      expect_eq_ok.mpr ha]
    exact ⟨_, rfl⟩
  | fromGenericView hq ht =>
    obtain ⟨q, hplan⟩ := exists_plan_fromGenericView hq.exists_binds ht
    exact ⟨_, hplan⟩
  | reflective => exact ⟨_, rfl⟩
  | genericSize hq ht =>
    obtain ⟨e, he⟩ := hq.exists_binds
    obtain ⟨q, hq⟩ := exists_sequence .genericSize he ht
    simp only [Scope.plan, checkResult, decide_true, if_true, ok_bind, hq]
    exact ⟨_, rfl⟩
  | genericGet hq ht hi =>
    obtain ⟨e, he⟩ := hq.exists_binds
    obtain ⟨q, hq⟩ := exists_sequence .genericGet he ht
    simp only [Scope.plan, checkResult, Ty.isObject, if_true, ok_bind, expect_eq_ok.mpr hi, hq]
    exact ⟨_, rfl⟩
  | genericSet hq ht hi hv hu =>
    obtain ⟨e, he⟩ := hq.exists_binds
    obtain ⟨q, hq⟩ := exists_sequence .genericSet he ht
    obtain ⟨v, hv⟩ := exists_element .genericSet hv hu
    simp only [Scope.plan, checkResult, decide_true, if_true, ok_bind, expect_eq_ok.mpr hi, hv, hq]
    exact ⟨_, rfl⟩
  | staticTest h =>
    obtain ⟨b, hb, ht, -⟩ := h
    simp only [Scope.plan, checkResult, decide_true, if_true, ok_bind, bound_eq_ok.mpr hb, ht]
    rw [testIsStatic_iff.mpr ⟨_, rfl, rfl⟩]
    exact ⟨_, rfl⟩
  | typeTest hq =>
    obtain ⟨e, he⟩ := hq.exists_binds
    obtain ⟨q, hq⟩ := exists_generic he
    obtain ⟨b, hb, -⟩ := he
    simp only [Scope.plan, checkResult, decide_true, if_true, ok_bind, bound_eq_ok.mpr hb, hq]
    split <;> exact ⟨_, rfl⟩
  | typeOf hq =>
    obtain ⟨e, he⟩ := hq.exists_binds
    obtain ⟨q, hq⟩ := exists_generic he
    simp only [Scope.plan, checkResult, decide_true, if_true, ok_bind, hq]
    exact ⟨_, rfl⟩
  | sequenceLit => exact ⟨_, rfl⟩

/-- An expression is accepted exactly when it has a plan by the rules. -/
theorem exists_plan_iff {t : Ty} {expr : Expr} :
    (∃ plan, scope.plan t expr = .ok plan) ↔ ∃ plan, scope.Plans t expr plan := by
  constructor
  · rintro ⟨plan, hplan⟩
    exact ⟨plan, plans_of_plan hplan⟩
  · rintro ⟨plan, hplan⟩
    exact exists_plan_of_plans hplan

end ArrayBridge.Erasure.Scope
