import ArrayBridge.Proofs.Bridge.Reading
import ArrayBridge.Proofs.Erasure.Safety

/-!
# Erasure preserves meaning

An erased program ends as the direct reading of the bridge program does. The locals of erased code
are related to those of the reading by `Models`: what stands for a bridge local holds the value of
that local, and an adapter holds the view of its array. One bridge binding becomes a few erased
ones, of which all but one are adapters, and making an adapter changes nothing in the store.

Main results:

* `Models.generic` — what is placed for a generic operand gives the view that the reading sees.
* `Models.erase` — the code of one binding does what the reading of the binding does.
* `Models.eraseAll` — so does the code of all bindings.
* `sameOutcome_of_erase` — an erased program ends as the reading does.
-/

namespace ArrayBridge

open ArrayBridge.Erased (Value Env RunError Head Role EachBinding evalBindings)
open ArrayBridge.Action (lift mapError view)

/-! ## Values where generic ones are wanted -/

namespace Erased

/-- Only arrays look different as generic values. -/
theorem Value.asGeneric_of_head {v : Value} (h : ∀ k, v.head ≠ .array k) : v.asGeneric = v := by
  cases v with
  | array a => exact absurd rfl (h a.kind)
  | _ => rfl

theorem Env.getElem?_asGeneric (env : Env) (l : Local) :
    env.asGeneric[l]? = env[l]?.map Value.asGeneric :=
  List.getElem?_map ..

end Erased

/-! ## Uses of generic values -/

section

variable {env read : Env} {l l' i i' x x' : Local} {v w : Value} {n : Int64} {s : Store}

/-- A generic value that both sides hold is used alike. -/
theorem sameOutcome_genericSize (hv : env[l]? = some v) (hv' : read.asGeneric[l']? = some v) :
    SameOutcomeUpTo Eq ((Erased.Expr.genericSize l).eval env s)
      ((Bridge.Expr.genericSize l').read read s) := by
  refine Env.sameOutcome_of_operand hv hv' fun q _ _ => .of_eq ?_
  simp only [Action.view_bind_apply, Action.pure_apply, Sequence.length_itemsOf]

/-- A test has the same answer on the adapter and on what is read as generic, -/
theorem sameOutcome_typeTest {d : Descriptor} (hv : env[l]? = some v)
    (hv' : read.asGeneric[l']? = some v) :
    SameOutcomeUpTo Eq ((Erased.Expr.typeTest l d).eval env s)
      ((Bridge.Expr.typeTest l' d).read read s) :=
  Env.sameOutcome_of_operand hv hv' fun _ _ _ => .rfl_eq _

/-- a query has, -/
theorem sameOutcome_typeOf (hv : env[l]? = some v) (hv' : read.asGeneric[l']? = some v) :
    SameOutcomeUpTo Eq ((Erased.Expr.typeOf l).eval env s)
      ((Bridge.Expr.typeOf l').read read s) :=
  Env.sameOutcome_of_operand hv hv' fun _ _ _ => .rfl_eq _

/-- and a copy has. -/
theorem sameOutcome_fromGenericView {k : Kind} (hv : env[l]? = some v)
    (hv' : read.asGeneric[l']? = some v) :
    SameOutcomeUpTo Eq ((Erased.Expr.copyFromGeneric k l).eval env s)
      ((Bridge.Call.fromGenericView l').read read k s) :=
  Env.sameOutcome_of_operand hv hv' fun _ _ _ => .rfl_eq _

/-- Items are read alike, -/
theorem sameOutcome_genericGet (hv : env[l]? = some v) (hv' : read.asGeneric[l']? = some v)
    (hi : env.integer i = .ok n) (hi' : read.integer i' = .ok n) :
    SameOutcomeUpTo Eq ((Erased.Expr.genericGet l i).eval env s)
      ((Bridge.Expr.genericGet l' i').read read s) := by
  refine Env.sameOutcome_of_operand hv hv' fun q hq _ => .of_eq ?_
  -- one side looks the item up behind a check of the index, the other in the view
  have heval := Erased.eval_genericGet (s := s) hq hi
  rw [Erased.Expr.eval, show env.sequence l = .ok q from hq, Action.lift_ok,
    Action.pure_bind_apply] at heval
  refine heval.trans ?_
  simp only [hi', Action.lift_ok, Action.pure_bind_apply, Action.view_bind_apply]
  cases Erased.itemAt? (s.itemsOf q) n with
  | some b => rfl
  | none => rw [← Sequence.length_itemsOf]; rfl

/-- and set alike; the value to be set may be boxed or not. -/
theorem sameOutcome_genericSet (hv : env[l]? = some v) (hv' : read.asGeneric[l']? = some v)
    (hi : env.integer i = .ok n) (hi' : read.integer i' = .ok n) (hw : env[x]? = some w)
    (hw' : read[x']? = some w) :
    SameOutcomeUpTo Eq ((Erased.Expr.genericSet l i x).eval env s)
      ((Bridge.Expr.genericSet l' i' x').read read s) := by
  refine Env.sameOutcome_of_operand hv hv' fun q hq _ => ?_
  have heval := Erased.eval_genericSet (s := s) x hq hi
  rw [Erased.Expr.eval, show env.sequence l = .ok q from hq, Action.lift_ok,
    Action.pure_bind_apply] at heval
  rw [heval]
  simp only [hi', Action.lift_ok, Action.pure_bind_apply, Action.view_bind_apply]
  cases Erased.itemAt? (s.itemsOf q) n with
  | some _ => exact Env.sameOutcome_of_operand hw hw' fun _ _ _ => .rfl_eq _
  | none => exact .of_eq (by rw [← Sequence.length_itemsOf]; rfl)

/-- A wrapper is of the class of its own arrays. -/
theorem read_typeTest_primitiveArray {k : Kind} {a : ArrayRef} (ha : read[l]? = some (.array a))
    (hk : a.kind = k) :
    (Bridge.Expr.typeTest l (.primitiveArray k)).read read s = .ok (.prim (.boolean true)) s := by
  have hview : read.asGeneric.reified l = .ok (.sequence a.toSequence) := by
    refine Env.operand_eq_ok.mpr ⟨.sequence a.toSequence, ?_, rfl⟩
    rw [Env.getElem?_asGeneric, ha]
    rfl
  have hinstance :
      (Erased.Reified.sequence a.toSequence).isInstanceOf (.primitiveArray k) = true := by
    simp [Erased.Reified.isInstanceOf, ArrayRef.toSequence, Sequence.isInstanceOf, hk]
  rw [Bridge.Expr.read, hview, Action.lift_ok, Action.pure_bind_apply, hinstance]
  rfl

end

/-! ## Locals that stand for locals -/

namespace Erasure.Placement

open Bridge (Binding)

/-- The locals of erased code and those of the direct reading hold the same values. -/
structure Models (p : Placement) (env read : Env) : Prop where
  heads : env.map Value.head = p.types.map Erased.Ty.head
  length : read.length = p.scope.length
  /-- What stands for a bridge local holds its value. -/
  scope : ∀ (j : Local) (b : Bound), p.scope[j]? = some b →
    ∃ v, read[j]? = some v ∧ env[b.erased]? = some v
  /-- A local that is bound to a literal holds it. -/
  literals : ∀ (j : Local) (b : Bound) (q : Prim), p.scope[j]? = some b →
    b.binding.expr = .primLit q → read[j]? = some (.prim q)
  /-- An adapter holds the view of the array that it was made for. -/
  adapters : ∀ a ∈ p.adapters, a.1 < read.length ∧
    ∀ r, read[a.1]? = some (.array r) → env[a.2]? = some (.sequence r.toSequence)

namespace Models

variable {p p' : Placement} {env env' read : Env} {l e : Local} {t : Bridge.Ty}

theorem empty : Placement.empty.Models [] [] :=
  ⟨rfl, rfl, by simp [Placement.empty], by simp [Placement.empty], by simp [Placement.empty]⟩

/-- What stands for a local holds its value, which has the form that the type of the local
becomes. -/
theorem value (hm : p.Models env read) (hp : p.Typed AtTupleType) (h : p.scope.Binds l t e) :
    ∃ v, read[l]? = some v ∧ env[e]? = some v ∧ v.head = (Erased.Ty.ofBridge t).head := by
  obtain ⟨u, hu, hhead⟩ := hp.hasHead_of_binds h
  obtain ⟨b, hb, -, rfl⟩ := h
  obtain ⟨v, hread, henv⟩ := hm.scope l b hb
  refine ⟨v, hread, henv, ?_⟩
  have hat := congrArg (·[b.erased]?) hm.heads
  simp only [List.getElem?_map, henv, hu, Option.map_some, Option.some.injEq] at hat
  rw [hat, hhead]

/-- An operand that is bound is read alike in both environments: an integer, -/
theorem integer (hm : p.Models env read) (hp : p.Typed AtTupleType)
    (h : p.scope.Binds l .integer e) : ∃ n, read.integer l = .ok n ∧ env.integer e = .ok n := by
  obtain ⟨v, hread, henv, hhead⟩ := hm.value hp h
  obtain ⟨n, rfl⟩ := Value.exists_integer_of_head hhead
  exact ⟨n, Env.integer_eq_ok.mpr hread, Env.integer_eq_ok.mpr henv⟩

/-- a primitive value, -/
theorem prim {k : Kind} (hm : p.Models env read) (hp : p.Typed AtTupleType)
    (h : p.scope.Binds l (.prim k) e) : ∃ q, read.prim l = .ok q ∧ env.prim e = .ok q := by
  obtain ⟨v, hread, henv, hhead⟩ := hm.value hp h
  obtain ⟨q, rfl, -⟩ := Value.exists_prim_of_head hhead
  exact ⟨q, Env.prim_eq_ok.mpr hread, Env.prim_eq_ok.mpr henv⟩

/-- or an array, which is the same reference in both. -/
theorem array {k : Kind} (hm : p.Models env read) (hp : p.Typed AtTupleType)
    (h : p.scope.Binds l (.wrapper k) e) :
    ∃ a, a.kind = k ∧ read[l]? = some (.array a) ∧ read.array k l = .ok a ∧
      env.array k e = .ok a := by
  obtain ⟨v, hread, henv, hhead⟩ := hm.value hp h
  obtain ⟨a, rfl, hk⟩ := Value.exists_array_of_head hhead
  exact ⟨a, hk, hread, Env.array_eq_ok.mpr ⟨hread, hk⟩, Env.array_eq_ok.mpr ⟨henv, hk⟩⟩

/-! ### Growing -/

/-- Placing an expression keeps the relation, once its value is bound. -/
theorem emit (type : Erased.Ty) {expr : Erased.Expr} {v : Value} {s s' : Store}
    (hm : p.Models env read) (hfits : FitsOrTuple AtTupleType p.types ⟨type, expr⟩)
    (hv : expr.eval env s = .ok v s') :
    (p.emit type expr).2.Models (env ++ [v]) read ∧
      (env ++ [v])[(p.emit type expr).1]? = some v := by
  have hhead : v.head = type.head :=
    Erased.head_of_eval (b := ⟨type, expr⟩) (Erased.Binding.headFits_of_fitsOrTuple hfits)
      hm.heads hv
  -- the fresh value stands at the place that is given out for it
  have hlength : env.length = p.bindings.length := by
    simpa [types] using congrArg List.length hm.heads
  refine ⟨⟨?_, hm.length, ?_, hm.literals, ?_⟩, ?_⟩
  · rw [types_emit, List.map_append, List.map_append, hm.heads]
    simp [hhead]
  · intro j b hb
    obtain ⟨w, hread, henv⟩ := hm.scope j b hb
    exact ⟨w, hread, getElem?_append_of_eq_some henv⟩
  · intro a ha
    obtain ⟨hlt, hview⟩ := hm.adapters a ha
    exact ⟨hlt, fun r hr => getElem?_append_of_eq_some (hview r hr)⟩
  · rw [Placement.emit, ← hlength, List.getElem?_concat_length]

/-- An adapter that holds the view of its array may be shared. -/
theorem share {j : Local} (hm : p.Models env read) (hlt : j < read.length)
    (hview : ∀ r, read[j]? = some (.array r) → env[l]? = some (.sequence r.toSequence)) :
    Models { p with adapters := p.adapters ++ [(j, l)] } env read := by
  refine ⟨hm.heads, hm.length, hm.scope, hm.literals, fun a ha => ?_⟩
  rcases List.mem_append.mp ha with ha | ha
  · exact hm.adapters a ha
  · rw [List.mem_singleton.mp ha]
    exact ⟨hlt, hview⟩

/-- Putting a binding into scope keeps the relation, once its value is bound. -/
theorem place {b : Binding} {v : Value} (hm : p.Models env read) (hl : env[l]? = some v)
    (hlit : ∀ q, b.expr = .primLit q → v = .prim q) :
    Models { p with scope := p.scope ++ [⟨b, l⟩] } env (read ++ [v]) := by
  have hkeep : ∀ {j : Local}, j < read.length → (read ++ [v])[j]? = read[j]? :=
    fun hj => List.getElem?_append_left hj
  -- a place in the longer scope is an old one, or that of the new binding
  have hlast : ∀ {j : Local} {c : Bound}, (p.scope ++ [⟨b, l⟩])[j]? = some c →
      p.scope[j]? = some c ∧ j < read.length ∨ c = ⟨b, l⟩ ∧ (read ++ [v])[j]? = some v := by
    intro j c hc
    rcases getElem?_concat_cases hc with ⟨hlt, hc⟩ | ⟨rfl, rfl⟩
    · exact .inl ⟨hc, hm.length ▸ hlt⟩
    · rw [← hm.length, List.getElem?_concat_length]
      exact .inr ⟨rfl, rfl⟩
  refine ⟨hm.heads, by simp [hm.length], ?_, ?_, ?_⟩
  · intro j c hc
    rcases hlast hc with ⟨hc, hlt⟩ | ⟨rfl, hj⟩
    · rw [hkeep hlt]
      exact hm.scope j c hc
    · exact ⟨v, hj, hl⟩
  · intro j c q hc hq
    rcases hlast hc with ⟨hc, hlt⟩ | ⟨rfl, hj⟩
    · rw [hkeep hlt]
      exact hm.literals j c q hc hq
    · rw [hj, hlit q hq]
  · intro a ha
    obtain ⟨hlt, hview⟩ := hm.adapters a ha
    refine ⟨?_, ?_⟩
    · rw [List.length_append]
      exact Nat.lt_add_right _ hlt
    · rw [hkeep hlt]
      exact hview

/-! ### Generic operands -/

variable {policy : AdapterPolicy}

/-- An adapter holds the view of its array, and making it leaves the store alone. -/
theorem adapter (policy : AdapterPolicy) {k : Kind} (hm : p.Models env read)
    (hp : p.Typed AtTupleType)
    (h : p.scope.Binds l (.wrapper k) e) :
    ∃ more env' a, (p.adapter policy ⟨k, l, e⟩).2.bindings = p.bindings ++ more ∧
      (∀ s, evalBindings env more s = .ok env' s) ∧
      (p.adapter policy ⟨k, l, e⟩).2.Models env' read ∧ read[l]? = some (.array a) ∧
      env'[(p.adapter policy ⟨k, l, e⟩).1]? = some (.sequence a.toSequence) := by
  obtain ⟨a, hk, hread, -, henv⟩ := hm.array hp h
  cases hmade : p.adapter? policy l with
  | some made =>
    -- what is held by an adapter made before is part of the relation
    have hview := (hm.adapters _ (mem_of_adapter? hmade)).2 a hread
    simp only [Placement.adapter, hmade]
    exact ⟨[], env, a, (List.append_nil _).symm, fun s => rfl, hm, hread, hview⟩
  | none =>
    -- a fresh adapter is bound to the view of the array
    have hfits : FitsOrTuple AtTupleType p.types ⟨.object (.genericView k), .wrapAdapter k e⟩ :=
      .inr (by rintro _ ⟨⟩; rfl)
    have heval := fun s => (Erased.Expr.Evaluates.wrapAdapter (s := s) henv).eval_eq
    obtain ⟨hemit, hlast⟩ := hm.emit _ hfits (heval .empty)
    have hlt : l < read.length := (List.getElem?_eq_some_iff.mp hread).1
    simp only [Placement.adapter, hmade]
    refine ⟨_, env ++ [.sequence a.toSequence], a, rfl, fun s => ?_, ?_, hread, hlast⟩
    · exact Erased.evalBindings_singleton (heval s)
    · refine hemit.share hlt fun r hr => ?_
      rw [hread] at hr
      injection hr with hr
      injection hr with hr
      exact hr ▸ hlast

/-- What is placed for a generic operand holds what the reading sees there, and placing it leaves
the store alone. -/
theorem generic (policy : AdapterPolicy) {q : Generic} (hm : p.Models env read)
    (hp : p.Typed AtTupleType)
    (h : p.scope.Stands l t q) :
    ∃ more env' v, (p.generic policy q).2.bindings = p.bindings ++ more ∧
      (∀ s, evalBindings env more s = .ok env' s) ∧
      (p.generic policy q).2.Models env' read ∧ read.asGeneric[l]? = some v ∧
      env'[(p.generic policy q).1]? = some v := by
  cases h with
  | adapted h =>
    obtain ⟨more, env', a, hmore, heval, hm', hread, hview⟩ := hm.adapter policy hp h
    refine ⟨more, env', _, hmore, heval, hm', ?_, hview⟩
    rw [Env.getElem?_asGeneric, hread]
    rfl
  | plain h hne =>
    -- a value that is no array is its own view
    obtain ⟨v, hread, henv, hhead⟩ := hm.value hp h
    refine ⟨[], env, v, (List.append_nil _).symm, fun s => rfl, hm, ?_, henv⟩
    rw [Env.getElem?_asGeneric, hread, Option.map_some,
      Value.asGeneric_of_head (hhead ▸ head_ofBridge_ne_array hne)]

/-! ### Expressions -/

/-- An element that is the default is left out, and the array is filled with it anyway. -/
theorem eval_construct {k : Kind} {size : Local} {element : Option Local} {array : Erased.Expr}
    (hm : p.Models env read) (hp : p.Typed AtTupleType)
    (h : p.scope.ConstructsArray k size element array) :
    array.eval env = (Bridge.Call.construct size element).read read k := by
  cases h with
  | bare hsize =>
    obtain ⟨n, hread, henv⟩ := hm.integer hp hsize
    simp only [Erased.Expr.eval, Bridge.Call.read, hread, henv, Bridge.readOption, Action.lift_ok,
      pure_bind]
  | zero hsize hb ht he hz =>
    -- the element is a literal zero, which the reading passes on
    rename_i l b q
    obtain ⟨n, hread, henv⟩ := hm.integer hp hsize
    have hq : read.prim l = .ok q := Env.prim_eq_ok.mpr (hm.literals l b q hb he)
    obtain ⟨v, hv, -, hhead⟩ := hm.value hp ⟨b, hb, ht, rfl⟩
    have hkind : q.kind = k := by
      rw [hm.literals l b q hb he] at hv
      injection hv with hv
      rw [← hv] at hhead
      injection hhead
    simp only [Erased.Expr.eval, Bridge.Call.read, hread, henv, Bridge.readOption, hq,
      Functor.map, Except.map, Action.lift_ok, pure_bind, ArrayRef.new_of_isZero n hkind hz]
  | fill hsize hl =>
    obtain ⟨n, hread, henv⟩ := hm.integer hp hsize
    obtain ⟨q, hq, hq'⟩ := hm.prim hp hl
    simp only [Erased.Expr.eval, Bridge.Call.read, hread, henv, Bridge.readOption, hq, hq',
      Functor.map, Except.map, Action.lift_ok, pure_bind]

/-- An offset of a copy is zero if it is left out. -/
theorem eval_offset {o : Option Local} {o' : Erased.Operand} (hm : p.Models env read)
    (hp : p.Typed AtTupleType) (h : p.scope.Offset o o') :
    ∃ n, Bridge.readOption read.integer o = .ok n ∧ env.offset o' = .ok (n.getD 0) := by
  cases h with
  | omitted => exact ⟨none, rfl, rfl⟩
  | given h =>
    obtain ⟨n, hread, henv⟩ := hm.integer hp h
    exact ⟨some n, by rw [Bridge.readOption, hread]; rfl, henv⟩

/-- A length that is left out is left out in both. -/
theorem eval_length {n : Option Local} {n' : Erased.CopyLength} (hm : p.Models env read)
    (hp : p.Typed AtTupleType) (h : p.scope.Length n n') :
    ∃ count, Bridge.readOption read.integer n = .ok count ∧ env.copyLength n' = .ok count := by
  cases h with
  | omitted => exact ⟨none, rfl, rfl⟩
  | given h =>
    obtain ⟨n, hread, henv⟩ := hm.integer hp h
    refine ⟨some n, by rw [Bridge.readOption, hread]; rfl, ?_⟩
    rw [Env.copyLength, Env.offset, henv]
    rfl

/-- Items of a tuple are the same values. -/
theorem eval_items {items es : List Local} (hm : p.Models env read) (hp : p.Typed AtTupleType)
    (h : List.Forall₂ (fun l e => ∃ t, p.scope.Binds l t e) items es) :
    es.mapM env.value = items.mapM read.value := by
  induction h with
  | nil => rfl
  | cons hl _ ih =>
    obtain ⟨t, ht⟩ := hl
    obtain ⟨v, hread, henv, -⟩ := hm.value hp ht
    rw [List.mapM_cons, List.mapM_cons, ih, Env.value_eq_ok.mpr hread, Env.value_eq_ok.mpr henv]

end Models

/-! ## Bindings -/

/-- The code of a plan does what the reading of its binding does, and keeps the relation. -/
def Simulates (policy : AdapterPolicy) (p : Placement) (env read : Env) (b : Binding)
    (plan : Plan) : Prop :=
  ∃ more, (p.place policy b plan).bindings = p.bindings ++ more ∧ ∀ s,
    SameOutcomeUpTo (fun env' v => (p.place policy b plan).Models env' (read ++ [v]))
      (evalBindings env more s) (b.read read s)

section

variable {policy : AdapterPolicy} {p : Placement} {env read : Env} {b : Binding} {l e : Local}
  {t : Bridge.Ty}

theorem read_of_not_object (h : b.type.isObject = false) : b.read read = b.expr.read read := by
  simp [Bridge.Binding.read, h]

/-- A value that is bound as an object is looked at as a generic one. -/
theorem read_of_object (h : b.type.isObject = true) :
    b.read read = b.expr.read read >>= fun v => pure v.asGeneric := by
  simp [Bridge.Binding.read, h]

theorem value_of_read_primLit {q : Prim} {v : Value} {s s' : Store} (hb : b.expr = .primLit q)
    (h : b.read read s = .ok v s') : v = .prim q := by
  rw [Bridge.Binding.read, hb, Bridge.Expr.read, pure_bind] at h
  split at h <;> injection h with h <;> exact h.symm

/-- The last expression that is placed for a binding has to end as the reading does. -/
theorem Models.last {type : Erased.Ty} {expr : Erased.Expr} {s : Store} (hm : p.Models env read)
    (hfits : FitsOrTuple AtTupleType p.types ⟨type, expr⟩)
    (hsame : SameOutcomeUpTo Eq (expr.eval env s) (b.read read s)) :
    SameOutcomeUpTo
      (fun env' v => Models { (p.emit type expr).2 with
        scope := (p.emit type expr).2.scope ++ [⟨b, (p.emit type expr).1⟩] } env' (read ++ [v]))
      (evalBindings env [⟨type, expr⟩] s) (b.read read s) := by
  rw [← bind_pure (b.read read)]
  refine hsame.bind fun v w s' hv hw hvw => ⟨?_, rfl⟩
  subst hvw
  obtain ⟨hemit, hlast⟩ := hm.emit _ hfits hv
  exact hemit.place hlast fun q hq => value_of_read_primLit hq hw

/-- A plan that places one expression simulates its binding if the two have the same outcome. -/
theorem simulates_bind {type : Erased.Ty} {expr : Erased.Expr} (hm : p.Models env read)
    (hfits : FitsOrTuple AtTupleType p.types ⟨type, expr⟩)
    (hsame : ∀ s, SameOutcomeUpTo Eq (expr.eval env s) (b.read read s)) :
    Simulates policy p env read b (.bind type expr) :=
  ⟨[⟨type, expr⟩], rfl, fun s => hm.last hfits (hsame s)⟩

/-- A generic operation is simulated on whatever stands for its sequence: the local, or an adapter
that was made before or is made now. -/
theorem simulates_use {type : Erased.Ty} {q : Generic} {use : GenericUse}
    (hm : p.Models env read) (hp : p.Typed AtTupleType) (hq : p.scope.Stands l t q)
    (htype : use.type.plain = type.plain)
    (hsame : ∀ (p' : Placement) (env' : Env) (l' : Local) (v : Value), p'.Typed AtTupleType →
      p'.scope = p.scope → p'.Models env' read → env'[l']? = some v →
      read.asGeneric[l]? = some v →
      ∀ s, SameOutcomeUpTo Eq ((use.expr l').eval env' s) (b.read read s)) :
    Simulates policy p env read b (.use type q use) := by
  -- the operand is placed first, and the use of it comes last
  obtain ⟨more, env', v, hmore, heval, hm', hread, henv⟩ := hm.generic policy hp hq
  obtain ⟨hp', hgrows, -⟩ := hp.generic policy (hp.offers_reified hq) (by simp [Role.Admits])
  refine ⟨more ++ [⟨type, use.expr (p.generic policy q).1⟩], ?_, fun s => ?_⟩
  · show (p.generic policy q).2.bindings ++ [_] = _
    rw [hmore, List.append_assoc]
    rfl
  · rw [Erased.evalBindings_append, Action.bind_of_ok (heval s)]
    refine hm'.last (.inr fun u hu => ?_)
      (hsame _ env' _ v hp' hgrows.scope hm' henv hread s)
    rw [GenericUse.type?_expr] at hu
    injection hu with hu
    exact hu ▸ htype

/-- Nothing but the adapter of an array is placed where the reading gives the view of it. -/
theorem simulates_adapt {k : Kind} (hm : p.Models env read) (hp : p.Typed AtTupleType)
    (h : p.scope.Binds l (.wrapper k) e)
    (hread : ∀ a s, read[l]? = some (.array a) → a.kind = k →
      b.read read s = .ok (.sequence a.toSequence) s) :
    Simulates policy p env read b (.adapt ⟨k, l, e⟩) := by
  obtain ⟨a', hk, hl', -, -⟩ := hm.array hp h
  obtain ⟨more, env', a, hmore, heval, hm', hl, hview⟩ := hm.adapter policy hp h
  obtain rfl : a' = a := by
    rw [hl] at hl'
    injection hl' with hl'
    injection hl' with hl'
    exact hl'.symm
  refine ⟨more, hmore, fun s => ?_⟩
  rw [heval s, hread a' s hl hk]
  refine ⟨hm'.place hview fun q hq => ?_, rfl⟩
  exact value_of_read_primLit hq (hread a' s hl hk)

/-- A fresh array is adapted under the local that is about to be bound, for which no adapter can
have been made. -/
theorem simulates_adaptFresh {k : Kind} {size : Local} {element : Option Local}
    {array : Erased.Expr} (hm : p.Models env read) (hp : p.Typed AtTupleType)
    (hb : b.type.isObject = true) (hexpr : b.expr = .call k (.construct size element))
    (h : p.scope.ConstructsArray k size element array) :
    Simulates policy p env read b (.adaptFresh k array) := by
  -- adapters have been made for locals in scope only
  have hfresh : (p.emit (.array k) array).2.adapter? policy p.scope.length = none := by
    cases policy with
    | perUse => rfl
    | shared =>
      refine List.lookup_eq_none_iff.mpr fun a ha => ?_
      have hlt := (hm.adapters a ha).1
      rw [hm.length] at hlt
      exact bne_iff_ne.mpr (Nat.ne_of_gt hlt)
  have hfits := (hp.constructs h).2
  have hplaced : p.place policy b (.adaptFresh k array) =
      ⟨(p.emit (.array k) array).2.bindings ++
          [⟨.object (.genericView k), .wrapAdapter k p.bindings.length⟩],
        p.scope ++ [⟨b, (p.emit (.array k) array).2.bindings.length⟩],
        p.adapters ++ [(p.scope.length, (p.emit (.array k) array).2.bindings.length)]⟩ := by
    simp only [emit] at hfresh
    simp only [place, code, adapter, emit, hfresh]
  refine ⟨[⟨.array k, array⟩, ⟨.object (.genericView k), .wrapAdapter k p.bindings.length⟩],
    by rw [hplaced]; exact List.append_assoc .., fun s => ?_⟩
  -- the array is constructed as in the reading, and then adapted
  have hcons : evalBindings env
      [⟨.array k, array⟩, ⟨.object (.genericView k), .wrapAdapter k p.bindings.length⟩] =
      (Bridge.Call.construct size element).read read k >>= fun v => evalBindings (env ++ [v])
        [⟨.object (.genericView k), .wrapAdapter k p.bindings.length⟩] := by
    rw [← hm.eval_construct hp h]
    rfl
  rw [hcons, read_of_object hb, hexpr]
  refine (SameOutcomeUpTo.rfl_eq _).bind fun v _ s' hv _ hvw => ?_
  subst hvw
  rw [← hm.eval_construct hp h] at hv
  obtain ⟨hemit, hlast⟩ := hm.emit (.array k) (.inr hfits) hv
  have hhead : v.head = .array k :=
    Erased.head_of_eval (b := ⟨.array k, array⟩) hfits.headFits hm.heads hv
  obtain ⟨a, rfl, hk⟩ := Value.exists_array_of_head hhead
  have heval := (Erased.Expr.Evaluates.wrapAdapter (s := s')
    (Env.array_eq_ok.mpr ⟨hlast, hk⟩)).eval_eq
  obtain ⟨hemit', hlast'⟩ := hemit.emit (.object (.genericView k))
    (.inr (by rintro _ ⟨⟩; rfl)) heval
  rw [Erased.evalBindings_singleton heval]
  refine ⟨?_, rfl⟩
  have hplace := hemit'.place (b := b) hlast' fun q hq => by rw [hexpr] at hq; cases hq
  -- the new local holds the view itself and not an array
  have hshare := hplace.share (j := p.scope.length)
    (l := (p.emit (.array k) array).2.bindings.length) (by simp [hm.length]) fun r hr => by
      rw [← hm.length, List.getElem?_concat_length] at hr
      cases hr
  rw [hplaced]
  exact hshare

/-- The value of a local is bound as it is at the type of the local. -/
theorem coerce_of_head {v : Value} (h : v.head = (Erased.Ty.ofBridge t).head) :
    (if t.isObject then v.asGeneric else v) = v := by
  split
  · rename_i hobject
    obtain ⟨d, rfl⟩ := Scope.exists_object_of_isObject hobject
    exact Value.asGeneric_of_head fun k => by rw [h]; simp [Erased.Ty.ofBridge, Erased.Ty.head]
  · rfl

/-- Whatever the plan of a binding is, its code does what the reading does. -/
theorem simulates_of_plans {plan : Plan} (hm : p.Models env read) (hp : p.Typed AtTupleType)
    (htuple : ∀ items, b.expr = .tuple items → ∃ ts, b.type = .tuple ts)
    (h : p.scope.Plans b.type b.expr plan) : Simulates policy p env read b plan := by
  obtain ⟨haccepts, -⟩ := hp.accepts_of_plans (tupleKnown_of_tuple htuple) h
  obtain ⟨type, expr⟩ := b
  dsimp only at h htuple
  -- one case for each plan; the operands have the same values on both sides
  cases h with
  | var h =>
    obtain ⟨v, hread, henv, hhead⟩ := hm.value hp h
    refine simulates_bind hm haccepts.2 fun s => .of_eq ?_
    rw [Erased.Expr.eval, Env.value_eq_ok.mpr henv, Bridge.Binding.read, Bridge.Expr.read,
      Env.value_eq_ok.mpr hread, Action.lift_ok, Action.pure_bind_apply, coerce_of_head hhead]
  | view h =>
    refine simulates_adapt hm hp h fun a s ha hk => ?_
    rw [read_of_object rfl, Bridge.Expr.read, Env.value_eq_ok.mpr ha]
    rfl
  | intLit | primLit =>
    refine simulates_bind hm haccepts.2 fun s => .of_eq ?_
    rw [read_of_not_object rfl]
    rfl
  | sequenceLit =>
    refine simulates_bind hm haccepts.2 fun s => .of_eq ?_
    rw [read_of_object rfl]
    rfl
  | reflective => exact simulates_bind hm haccepts.2 fun s => .of_eq rfl
  | tuple h =>
    obtain ⟨ts, rfl⟩ := htuple _ rfl
    refine simulates_bind hm haccepts.2 fun s => .of_eq ?_
    rw [read_of_not_object rfl, Erased.Expr.eval, Bridge.Expr.read, hm.eval_items hp h]
  | construct h =>
    refine simulates_bind hm haccepts.2 fun s => .of_eq ?_
    rw [hm.eval_construct hp h, read_of_not_object rfl]
    rfl
  | constructView h => exact simulates_adaptFresh hm hp rfl rfl h
  | get ha hi =>
    obtain ⟨a, -, -, ha, ha'⟩ := hm.array hp ha
    obtain ⟨n, hn, hn'⟩ := hm.integer hp hi
    refine simulates_bind hm haccepts.2 fun s => .of_eq ?_
    rw [read_of_not_object rfl]
    simp only [Erased.Expr.eval, Bridge.Expr.read, Bridge.Call.read, ha, ha', hn, hn',
      Action.lift_ok, pure_bind]
  | set ha hi hv =>
    obtain ⟨a, -, -, ha, ha'⟩ := hm.array hp ha
    obtain ⟨n, hn, hn'⟩ := hm.integer hp hi
    obtain ⟨q, hq, hq'⟩ := hm.prim hp hv
    refine simulates_bind hm haccepts.2 fun s => .of_eq ?_
    rw [read_of_not_object rfl]
    simp only [Erased.Expr.eval, Bridge.Expr.read, Bridge.Call.read, ha, ha', hn, hn', hq, hq',
      Action.lift_ok, pure_bind]
  | length ha =>
    obtain ⟨a, -, -, ha, ha'⟩ := hm.array hp ha
    refine simulates_bind hm haccepts.2 fun s => .of_eq ?_
    rw [read_of_not_object rfl]
    simp only [Erased.Expr.eval, Bridge.Expr.read, Bridge.Call.read, ha, ha', Action.lift_ok,
      pure_bind]
  | copyTo hs hd hso hdof hn =>
    obtain ⟨a, -, -, ha, ha'⟩ := hm.array hp hs
    obtain ⟨d, -, -, hd, hd'⟩ := hm.array hp hd
    obtain ⟨so, hso, hso'⟩ := hm.eval_offset hp hso
    obtain ⟨dof, hdof, hdof'⟩ := hm.eval_offset hp hdof
    obtain ⟨n, hn, hn'⟩ := hm.eval_length hp hn
    refine simulates_bind hm haccepts.2 fun s => .of_eq ?_
    rw [read_of_not_object rfl]
    simp only [Erased.Expr.eval, Bridge.Expr.read, Bridge.Call.read, ha, ha', hd, hd', hso, hso',
      hdof, hdof', hn, hn', Action.lift_ok, pure_bind]
  | toGenericView h =>
    refine simulates_adapt hm hp h fun a s ha hk => ?_
    rw [read_of_object rfl, Bridge.Expr.read, Bridge.Call.read,
      Env.array_eq_ok.mpr ⟨ha, hk⟩]
    rfl
  | fromGenericView hq ht =>
    refine simulates_use hm hp hq rfl fun p' env' l' v hp' hscope hm' henv hread s => ?_
    rw [read_of_not_object rfl]
    exact sameOutcome_fromGenericView henv hread
  | genericSize hq ht =>
    refine simulates_use hm hp hq rfl fun p' env' l' v hp' hscope hm' henv hread s => ?_
    rw [read_of_not_object rfl]
    exact sameOutcome_genericSize henv hread
  | genericGet hq ht hi =>
    refine simulates_use hm hp hq rfl fun p' env' l' v hp' hscope hm' henv hread s => ?_
    obtain ⟨n, hn, hn'⟩ := hm'.integer hp' (hscope ▸ hi)
    rw [read_of_object rfl, ← bind_pure (Erased.Expr.eval env' _)]
    refine (sameOutcome_genericGet henv hread hn' hn).bind fun v w s' hv _ hvw => ⟨?_, rfl⟩
    -- an item is an object
    rw [← hvw]
    cases Erased.Expr.evaluates_of_eval hv
    rfl
  | genericSet hq ht hi hv hu =>
    refine simulates_use hm hp hq rfl fun p' env' l' v hp' hscope hm' henv hread s => ?_
    obtain ⟨n, hn, hn'⟩ := hm'.integer hp' (hscope ▸ hi)
    obtain ⟨w, hw, hw', -⟩ := hm'.value hp' (hscope ▸ hv)
    rw [read_of_not_object rfl]
    exact sameOutcome_genericSet henv hread hn' hn hw' hw
  | staticTest h =>
    -- the test is folded, and the reading finds it true
    obtain ⟨a, hk, ha, -⟩ := hm.array hp h
    refine simulates_bind hm haccepts.2 fun s => .of_eq ?_
    rw [read_of_not_object rfl, read_typeTest_primitiveArray ha hk]
    rfl
  | typeTest hq =>
    refine simulates_use hm hp hq rfl fun p' env' l' v hp' hscope hm' henv hread s => ?_
    rw [read_of_not_object rfl]
    exact sameOutcome_typeTest henv hread
  | typeOf hq =>
    refine simulates_use hm hp hq rfl fun p' env' l' v hp' hscope hm' henv hread s => ?_
    rw [read_of_not_object rfl]
    exact sameOutcome_typeOf henv hread

/-! ## Programs -/

variable {p' : Placement} {bs : List Binding}

/-- The code of one binding does what the reading of the binding does. -/
theorem Models.erase (hm : p.Models env read) (hp : p.Typed AtTupleType)
    (htuple : ∀ items, b.expr = .tuple items → ∃ ts, b.type = .tuple ts)
    (h : p.erase policy b = .ok p') :
    ∃ more, p'.bindings = p.bindings ++ more ∧ ∀ s,
      SameOutcomeUpTo (fun env' v => p'.Models env' (read ++ [v]))
        (evalBindings env more s) (b.read read s) := by
  obtain ⟨plan, hplan, rfl⟩ := erase_eq_ok.mp h
  exact simulates_of_plans hm hp htuple (Scope.plans_of_plan hplan)

/-- The code of all bindings does what their reading does. -/
theorem Models.eraseAll (hm : p.Models env read) (hp : p.Typed AtTupleType)
    (htuple : ∀ b ∈ bs, ∀ items, b.expr = .tuple items → ∃ ts, b.type = .tuple ts)
    (h : p.eraseAll policy bs = .ok p') :
    ∃ more, p'.bindings = p.bindings ++ more ∧ ∀ s,
      SameOutcomeUpTo p'.Models (evalBindings env more s) (Bridge.readBindings read bs s) := by
  induction bs generalizing p env read with
  | nil =>
    injection h with h
    exact ⟨[], by rw [h, List.append_nil], fun s => ⟨h ▸ hm, rfl⟩⟩
  | cons b bs ih =>
    obtain ⟨p₁, hb, h⟩ := Check.bind_eq_ok.mp h
    obtain ⟨hp₁, hscope, -⟩ :=
      hp.erase (tupleKnown_of_tuple (htuple b List.mem_cons_self)) hb
    have htupleRest : ∀ c ∈ bs, ∀ items, c.expr = .tuple items → ∃ ts, c.type = .tuple ts :=
      fun c hc => htuple c (List.mem_cons_of_mem b hc)
    obtain ⟨more, hmore, hone⟩ := hm.erase hp (htuple b List.mem_cons_self) hb
    -- the code of the rest is fixed before the values of its locals are
    obtain ⟨-, -, rest, hrest⟩ := hp₁.eraseAll (fun before c after hcs =>
      tupleKnown_of_tuple (htupleRest c (by simp [hcs]))) h
    refine ⟨more ++ rest, by rw [← hrest, hmore, List.append_assoc], fun s => ?_⟩
    rw [Erased.evalBindings_append]
    refine (hone s).bind fun env₁ v s₁ _ _ hm₁ => ?_
    obtain ⟨rest', hrest', hall⟩ := ih hm₁ hp₁ htupleRest h
    obtain rfl : rest = rest' := List.append_cancel_left (hrest.trans hrest')
    exact hall s₁

end

end Erasure.Placement

/-- Erasure preserves meaning: an erased program ends as the direct reading of the bridge program
does, in the same store. -/
theorem Bridge.Program.sameOutcome_of_erase {policy : AdapterPolicy} {p : Bridge.Program}
    {e : Erased.Program} (htuples : p.TuplesAreTuples) (herase : p.erase policy = .ok e) :
    SameOutcome e.run p.read := by
  obtain ⟨placed, b, hplaced, hb, rfl⟩ := Erasure.exists_placement_of_erase herase
  obtain ⟨more, hmore, hall⟩ := Erasure.Placement.Models.empty.eraseAll
    Erasure.Placement.typed_empty htuples hplaced
  -- nothing has been placed before
  have hbindings : placed.bindings = more := hmore
  show SameOutcomeUpTo Eq
    ((evalBindings [] placed.bindings >>= fun env => lift (env.value b.erased)) Store.empty) _
  rw [hbindings]
  refine (hall .empty).bind fun env read s _ _ hm => .of_eq ?_
  obtain ⟨v, hread, henv⟩ := hm.scope p.result b hb
  rw [Env.value_eq_ok.mpr hread, Env.value_eq_ok.mpr henv]

/-- An array of two zeros is written through a view and read through another; its type test and its
element are folded, and both views are one adapter. -/
theorem Bridge.Program.sameOutcome_of_erase_views :
    ∃ (p : Bridge.Program) (e : Erased.Program) (s : Store),
      p.TuplesAreTuples ∧ p.erase .shared = .ok e ∧ SameOutcome e.run p.read ∧
        e.run = .ok (.tuple [.boxed (.integer 7), .prim (.boolean true)]) s := by
  let p : Bridge.Program :=
    ⟨[⟨.integer, .intLit 2⟩, ⟨.prim .int, .primLit (.int 0)⟩,
      ⟨.wrapper .int, .call .int (.construct 0 (some 1))⟩, ⟨.object .anything, .var 2⟩,
      ⟨.integer, .intLit 1⟩, ⟨.prim .int, .primLit (.int 7)⟩, ⟨.unit, .genericSet 2 4 5⟩,
      ⟨.object .anything, .genericGet 3 4⟩,
      ⟨.prim .boolean, .typeTest 2 (.primitiveArray .int)⟩,
      ⟨.tuple [.object .anything, .prim .boolean], .tuple [7, 8]⟩], 9⟩
  let e : Erased.Program :=
    ⟨[⟨.integer, .intLit 2⟩, ⟨.prim .int, .primLit (.int 0)⟩, ⟨.array .int, .newArray .int 0⟩,
      ⟨.object (.genericView .int), .wrapAdapter .int 2⟩, ⟨.integer, .intLit 1⟩,
      ⟨.prim .int, .primLit (.int 7)⟩, ⟨.unit, .genericSet 3 4 5⟩,
      ⟨.object .anything, .genericGet 3 4⟩, ⟨.prim .boolean, .primLit (.boolean true)⟩,
      ⟨.tuple [.object .anything, .prim .boolean], .tuple [7, 8]⟩], 9⟩
  have htuples : p.TuplesAreTuples := by simp [p, TuplesAreTuples]
  have herase : p.erase .shared = .ok e := rfl
  have hrun : e.run = .ok (.tuple [.boxed (.integer 7), .prim (.boolean true)])
      ⟨#[#[0, 7]], #[]⟩ := by with_unfolding_all rfl
  exact ⟨p, e, _, htuples, herase, sameOutcome_of_erase htuples herase, hrun⟩

end ArrayBridge
