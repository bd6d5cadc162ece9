import ArrayBridge.Erased.Run
import ArrayBridge.Proofs.Erased.Typing
import ArrayBridge.Proofs.Store.Operations

/-!
# Evaluating a typed expression

What an expression gives and how it can fail, for locals whose values may play the roles that it
has for them. Nothing is said here about where such locals come from.

Main results:

* `Expr.eval_eq_ok` — an evaluation that ends, form by form: what it reads, and the operation.
* `Expr.type_of_eval` — the value of an expression is of the type that the expression has, given
  the types of the values of the locals.
* `Expr.remaining_of_eval` — if every operand may play its role, only the failures of
  `Expr.Remaining` are left.
-/

namespace ArrayBridge.Erased

open ArrayBridge.Action (bind_eq_ok bind_eq_error lift_eq_ok mapError_eq_ok mapError_eq_error)

/-! ## Reading operands -/

namespace Env

variable {env : Env} {l : Local}

/-- A local that is bound has its value. -/
theorem value_eq_ok {v : Value} : env.value l = .ok v ↔ env[l]? = some v := by
  rw [value]
  cases env[l]? <;> simp

/-- A local is read as what is expected if it is bound to such a value. -/
theorem operand_eq_ok {α : Type} {expected : Expectation} {read : Value → Option α} {a : α} :
    env.operand expected read l = .ok a ↔ ∃ v, env[l]? = some v ∧ read v = some a := by
  unfold operand value
  cases env[l]? with
  | none => simp [bind, Except.bind]
  | some v => cases hr : read v <;> simp [bind, Except.bind, pure, Except.pure, throw, throwThe,
      MonadExceptOf.throw, hr]

/-- A value that is not as expected is reported with its shape. -/
theorem operand_of_none {α : Type} {expected : Expectation} {read : Value → Option α} {v : Value}
    (hv : env[l]? = some v) (hr : read v = none) :
    env.operand expected read l = .error (.dynamicType l expected v.shape) := by
  unfold operand value
  rw [hv]
  simp [bind, Except.bind, throw, throwThe, MonadExceptOf.throw, hr]

theorem integer_eq_ok {n : Int64} : env.integer l = .ok n ↔ env[l]? = some (.integer n) := by
  rw [integer, operand_eq_ok]
  constructor
  · rintro ⟨v, hv, hr⟩
    cases v <;> simp_all
  · exact fun h => ⟨_, h, rfl⟩

theorem prim_eq_ok {p : Prim} : env.prim l = .ok p ↔ env[l]? = some (.prim p) := by
  rw [prim, operand_eq_ok]
  constructor
  · rintro ⟨v, hv, hr⟩
    cases v <;> simp_all
  · exact fun h => ⟨_, h, rfl⟩

/-- An array operand is an array of the kind that the operation names. -/
theorem array_eq_ok {k : Kind} {a : ArrayRef} :
    env.array k l = .ok a ↔ env[l]? = some (.array a) ∧ a.kind = k := by
  rw [array, operand_eq_ok]
  constructor
  · rintro ⟨v, hv, hr⟩
    cases v with
    | array b =>
      by_cases hk : b.kind = k
      · simp only [if_pos hk, Option.some.injEq] at hr
        exact ⟨hr ▸ hv, hr ▸ hk⟩
      · simp [if_neg hk] at hr
    | _ => cases hr
  · rintro ⟨hv, rfl⟩
    exact ⟨_, hv, if_pos rfl⟩

theorem sequence_eq_ok {q : Sequence} :
    env.sequence l = .ok q ↔ env[l]? = some (.sequence q) := by
  rw [sequence, operand_eq_ok]
  constructor
  · rintro ⟨v, hv, hr⟩
    cases v <;> simp_all
  · exact fun h => ⟨_, h, rfl⟩

end Env

/-- The value of a local may play a role. -/
def Role.Plays (role : Role) (env : Env) (l : Local) : Prop :=
  ∃ v, env[l]? = some v ∧ role.Admits v.head

namespace Role.Plays

variable {env : Env} {l : Local}

/-- Operands that play their roles are read. For any value it is enough to be bound; -/
theorem value (h : Role.value.Plays env l) : ∃ v, env.value l = .ok v := by
  obtain ⟨v, hv, -⟩ := h
  exact ⟨v, Env.value_eq_ok.mpr hv⟩

/-- an integer is read as one, -/
theorem integer (h : Role.integer.Plays env l) : ∃ n, env.integer l = .ok n := by
  obtain ⟨v, hv, hadm⟩ := h
  obtain ⟨n, rfl⟩ := Value.exists_integer_of_head hadm
  exact ⟨n, Env.integer_eq_ok.mpr hv⟩

/-- a primitive value as one of its kind, -/
theorem prim {k : Kind} (h : (Role.prim k).Plays env l) :
    ∃ p, env.prim l = .ok p ∧ p.kind = k := by
  obtain ⟨v, hv, hadm⟩ := h
  obtain ⟨p, rfl, hk⟩ := Value.exists_prim_of_head hadm
  exact ⟨p, Env.prim_eq_ok.mpr hv, hk⟩

/-- and so is an array. -/
theorem array {k : Kind} (h : (Role.array k).Plays env l) :
    ∃ a, env.array k l = .ok a ∧ a.kind = k := by
  obtain ⟨v, hv, hadm⟩ := h
  obtain ⟨a, rfl, hk⟩ := Value.exists_array_of_head hadm
  exact ⟨a, Env.array_eq_ok.mpr ⟨hv, hk⟩, hk⟩

/-- An object that is no generic sequence is a boxed element. -/
theorem sequence (h : Role.sequence.Plays env l) :
    (∃ q, env.sequence l = .ok q) ∨ ∃ b, env[l]? = some (.boxed b) ∧
      env.sequence l = .error (.dynamicType l .sequence (.boxed b.typeName)) := by
  obtain ⟨v, hv, hadm⟩ := h
  cases v with
  | sequence q => exact .inl ⟨q, Env.sequence_eq_ok.mpr hv⟩
  | boxed b => exact .inr ⟨b, hv, Env.operand_of_none hv rfl⟩
  | _ => cases hadm

/-- An object that is no element is a generic sequence. -/
theorem element (h : Role.element.Plays env l) :
    (∃ b, env.element l = .ok b) ∨ ∃ q, env[l]? = some (.sequence q) ∧
      env.element l = .error (.dynamicType l .element (.sequence q.descriptor)) := by
  obtain ⟨v, hv, hadm⟩ := h
  cases v with
  | prim p => exact .inl ⟨p.box, Env.operand_eq_ok.mpr ⟨_, hv, rfl⟩⟩
  | boxed b => exact .inl ⟨b, Env.operand_eq_ok.mpr ⟨_, hv, rfl⟩⟩
  | sequence q => exact .inr ⟨q, hv, Env.operand_of_none hv rfl⟩
  | _ => rcases hadm with h | ⟨_, h⟩ <;> cases h

/-- The values that do not know their own type, arrays apart. -/
theorem reified (h : Role.reified.Plays env l) :
    (∃ r, env.reified l = .ok r) ∨ ∃ v, env[l]? = some v ∧
      v.head ∈ [Head.unit, .descriptor, .tuple] ∧
      env.reified l = .error (.dynamicType l .reified v.shape) := by
  obtain ⟨v, hv, hadm⟩ := h
  cases v with
  | integer | prim | sequence | boxed =>
    exact .inl ⟨_, Env.operand_eq_ok.mpr ⟨_, hv, rfl⟩⟩
  | unit | descriptor | tuple =>
    exact .inr ⟨_, hv, by simp [Value.head], Env.operand_of_none hv rfl⟩
  | array a => exact absurd rfl (hadm a.kind)

end Role.Plays

/-! ## Generic access -/

/-- The item at an index of generic code, if it lies within the items. -/
def itemAt? (items : List Boxed) (index : Int64) : Option Boxed :=
  if 0 ≤ index.toInt then items[index.toInt.toNat]? else none

/-- There is an item at each index that passes the check. -/
theorem itemAt?_itemsOf (s : Store) (q : Sequence) (index : Int64) :
    itemAt? (s.itemsOf q) index =
      if 0 ≤ index.toInt ∧ index.toInt < q.size s then q.item? s index.toInt.toNat else none := by
  rw [itemAt?, Sequence.getElem?_itemsOf]
  -- the check and the look-up agree below zero, within the items and past them
  by_cases hlo : 0 ≤ index.toInt
  · by_cases hhi : index.toInt < q.size s
    · rw [if_pos hlo, if_pos ⟨hlo, hhi⟩]
    · rw [if_pos hlo, if_neg fun h => hhi h.2, ← Sequence.getElem?_itemsOf,
        List.getElem?_eq_none_iff, Sequence.length_itemsOf]
      omega
  · rw [if_neg hlo, if_neg fun h => hlo h.1]

private theorem mapError_checkIndex {index : Int64} {length : Nat}
    (hrange : 0 ≤ index.toInt ∧ index.toInt < length) :
    (Sequence.checkIndex index length).mapError RunError.sequence = .ok index.toInt.toNat := by
  rw [Sequence.checkIndex, if_pos hrange]
  rfl

private theorem mapError_checkIndex_of_not {index : Int64} {length : Nat}
    (hrange : ¬ (0 ≤ index.toInt ∧ index.toInt < length)) :
    (Sequence.checkIndex index length).mapError RunError.sequence =
      .error (.sequence (.indexOutOfBounds index length)) := by
  rw [Sequence.checkIndex, if_neg hrange]
  rfl

section

variable {env : Env} {s : Store} {sequence index : Local} {q : Sequence} {n : Int64}

/-- An item is the one at a checked index. None is missing within the size. -/
theorem eval_genericGet (hq : env.sequence sequence = .ok q) (hn : env.integer index = .ok n) :
    (Expr.genericGet sequence index).eval env s =
      match itemAt? (s.itemsOf q) n with
      | some b => .ok (.boxed b) s
      | none => .error (.sequence (.indexOutOfBounds n (q.size s))) s := by
  simp only [Expr.eval, hq, hn, Action.lift_ok, Action.pure_bind_apply, Action.view_bind_apply,
    itemAt?_itemsOf]
  by_cases hrange : 0 ≤ n.toInt ∧ n.toInt < q.size s
  · simp only [if_pos hrange, mapError_checkIndex hrange, Action.lift_ok, Action.pure_bind_apply,
      Action.view_bind_apply]
    cases q.item? s n.toInt.toNat <;> rfl
  · simp only [if_neg hrange, mapError_checkIndex_of_not hrange]
    rfl

/-- The index is checked before the value is looked at. -/
theorem eval_genericSet (value : Local) (hq : env.sequence sequence = .ok q)
    (hn : env.integer index = .ok n) :
    (Expr.genericSet sequence index value).eval env s =
      match itemAt? (s.itemsOf q) n with
      | some _ =>
        (do let b ← Action.lift (env.element value)
            Action.mapError .sequence (q.setItem n.toInt.toNat b)
            return .unit : Action RunError Value) s
      | none => .error (.sequence (.indexOutOfBounds n (q.size s))) s := by
  simp only [Expr.eval, hq, hn, Action.lift_ok, Action.pure_bind_apply, Action.view_bind_apply,
    itemAt?_itemsOf]
  by_cases hrange : 0 ≤ n.toInt ∧ n.toInt < q.size s
  · -- the item that is there matters only in that there is one
    have hlt : n.toInt.toNat < (s.itemsOf q).length := by
      rw [Sequence.length_itemsOf]
      omega
    rw [mapError_checkIndex hrange, if_pos hrange, ← Sequence.getElem?_itemsOf,
      List.getElem?_eq_getElem hlt]
    simp only [Action.lift_ok, Action.pure_bind_apply]
  · simp only [if_neg hrange, mapError_checkIndex_of_not hrange]
    rfl

end

/-! ## Values -/

/-- The values of a list of locals are looked up one by one. -/
theorem mapM_value_eq_ok {env : Env} {items : List Local} {vs : List Value} :
    items.mapM env.value = .ok vs ↔ List.Forall₂ (fun l v => env[l]? = some v) items vs := by
  simp only [mapM_eq_ok_iff, Env.value_eq_ok]

/-- How an expression comes to its value: what it reads, and the operation on the store if there is
one. -/
inductive Expr.Evaluates (env : Env) (s : Store) : Expr → Value → Store → Prop
  | var {l : Local} {v : Value} (hv : env[l]? = some v) : Evaluates env s (.var l) v s
  | intLit {n : Int64} : Evaluates env s (.intLit n) (.integer n) s
  | primLit {p : Prim} : Evaluates env s (.primLit p) (.prim p) s
  | tuple {items : List Local} {vs : List Value}
    (hvs : List.Forall₂ (fun l v => env[l]? = some v) items vs) :
    Evaluates env s (.tuple items) (.tuple vs) s
  | newArray {k : Kind} {size : Local} {n : Int64} {a : ArrayRef} {s' : Store}
    (hn : env.integer size = .ok n) (hnew : ArrayRef.new k n none s = .ok a s') :
    Evaluates env s (.newArray k size) (.array a) s'
  | fillArray {k : Kind} {size element : Local} {n : Int64} {p : Prim} {a : ArrayRef} {s' : Store}
    (hn : env.integer size = .ok n) (hp : env.prim element = .ok p)
    (hnew : ArrayRef.new k n (some p) s = .ok a s') :
    Evaluates env s (.fillArray k size element) (.array a) s'
  | load {k : Kind} {array index : Local} {a : ArrayRef} {n : Int64} {p : Prim} {s' : Store}
    (ha : env.array k array = .ok a) (hn : env.integer index = .ok n)
    (hget : a.get n s = .ok p s') : Evaluates env s (.load k array index) (.prim p) s'
  | store {k : Kind} {array index value : Local} {a : ArrayRef} {n : Int64} {p : Prim} {s' : Store}
    (ha : env.array k array = .ok a) (hn : env.integer index = .ok n)
    (hp : env.prim value = .ok p) (hset : a.set n p s = .ok () s') :
    Evaluates env s (.store k array index value) .unit s'
  | arrayLength {k : Kind} {array : Local} {a : ArrayRef} (ha : env.array k array = .ok a) :
    Evaluates env s (.arrayLength k array) (.integer (Int64.ofNat (s.length a))) s
  | arrayCopy {k : Kind} {source destination : Local} {sourceOffset destinationOffset : Operand}
    {length : CopyLength} {a d : ArrayRef} {m n : Int64} {given : Option Int64} {s' : Store}
    (ha : env.array k source = .ok a) (hd : env.array k destination = .ok d)
    (hm : env.offset sourceOffset = .ok m) (hn : env.offset destinationOffset = .ok n)
    (hlength : env.copyLength length = .ok given) (hcopy : a.copyTo d m n given s = .ok () s') :
    Evaluates env s (.arrayCopy k source sourceOffset destination destinationOffset length) .unit s'
  | wrapAdapter {k : Kind} {array : Local} {a : ArrayRef} (ha : env.array k array = .ok a) :
    Evaluates env s (.wrapAdapter k array) (.sequence a.toSequence) s
  | copyFromGeneric {k : Kind} {sequence : Local} {q : Sequence} {a : ArrayRef} {s' : Store}
    (hq : env.sequence sequence = .ok q) (hcopy : ArrayRef.ofSequence k q s = .ok a s') :
    Evaluates env s (.copyFromGeneric k sequence) (.array a) s'
  | genericSize {sequence : Local} {q : Sequence} (hq : env.sequence sequence = .ok q) :
    Evaluates env s (.genericSize sequence) (.integer (Int64.ofNat (q.size s))) s
  | genericGet {sequence index : Local} {q : Sequence} {n : Int64} {i : Nat} {b : Boxed}
    (hq : env.sequence sequence = .ok q) (hn : env.integer index = .ok n)
    (hi : Sequence.checkIndex n (q.size s) = .ok i) (hb : q.item? s i = some b) :
    Evaluates env s (.genericGet sequence index) (.boxed b) s
  | genericSet {sequence index value : Local} {q : Sequence} {n : Int64} {i : Nat} {b : Boxed}
    {s' : Store} (hq : env.sequence sequence = .ok q) (hn : env.integer index = .ok n)
    (hi : Sequence.checkIndex n (q.size s) = .ok i) (hb : env.element value = .ok b)
    (hset : q.setItem i b s = .ok () s') :
    Evaluates env s (.genericSet sequence index value) .unit s'
  | typeTest {value : Local} {d : Descriptor} {r : Reified} (hr : env.reified value = .ok r) :
    Evaluates env s (.typeTest value d) (.prim (.boolean (r.isInstanceOf d))) s
  | typeOf {value : Local} {r : Reified} (hr : env.reified value = .ok r) :
    Evaluates env s (.typeOf value) (.descriptor r.descriptor) s
  | sequenceLit {element : Descriptor} {items : List Boxed} :
    Evaluates env s (.sequenceLit element items)
      (.sequence (.boxed (s.newSequence element items.toArray).1))
      (s.newSequence element items.toArray).2

section

variable {env : Env} {e : Expr} {s s' : Store} {v : Value}

/-- The steps of an evaluation that ends, taken apart. -/
theorem Expr.evaluates_of_eval (h : e.eval env s = .ok v s') : e.Evaluates env s v s' := by
  -- the result comes last in each form, after the operands and the operation
  cases e with
  | var l =>
    obtain ⟨hv, rfl⟩ := lift_eq_ok.mp h
    exact .var (Env.value_eq_ok.mp hv)
  | intLit n =>
    cases h
    exact .intLit
  | primLit p =>
    cases h
    exact .primLit
  | tuple items =>
    simp only [eval, bind_eq_ok, lift_eq_ok] at h
    obtain ⟨vs, _, ⟨hvs, rfl⟩, ⟨⟩⟩ := h
    exact .tuple (mapM_value_eq_ok.mp hvs)
  | newArray k size =>
    simp only [eval, bind_eq_ok, lift_eq_ok, mapError_eq_ok] at h
    obtain ⟨n, _, ⟨hn, rfl⟩, a, _, hnew, ⟨⟩⟩ := h
    exact .newArray hn hnew
  | fillArray k size element =>
    simp only [eval, bind_eq_ok, lift_eq_ok, mapError_eq_ok] at h
    obtain ⟨n, _, ⟨hn, rfl⟩, p, _, ⟨hp, rfl⟩, a, _, hnew, ⟨⟩⟩ := h
    exact .fillArray hn hp hnew
  | load k array index =>
    simp only [eval, bind_eq_ok, lift_eq_ok, mapError_eq_ok] at h
    obtain ⟨a, _, ⟨ha, rfl⟩, n, _, ⟨hn, rfl⟩, p, _, hget, ⟨⟩⟩ := h
    exact .load ha hn hget
  | store k array index value =>
    simp only [eval, bind_eq_ok, lift_eq_ok, mapError_eq_ok] at h
    obtain ⟨a, _, ⟨ha, rfl⟩, n, _, ⟨hn, rfl⟩, p, _, ⟨hp, rfl⟩, _, _, hset, ⟨⟩⟩ := h
    exact .store ha hn hp hset
  | arrayLength k array =>
    simp only [eval, bind_eq_ok, lift_eq_ok] at h
    obtain ⟨a, _, ⟨ha, rfl⟩, _, _, ⟨⟩, ⟨⟩⟩ := h
    exact .arrayLength ha
  | arrayCopy k source sourceOffset destination destinationOffset length =>
    simp only [eval, bind_eq_ok, lift_eq_ok, mapError_eq_ok] at h
    obtain ⟨given, _, ⟨hgiven, rfl⟩, a, _, ⟨ha, rfl⟩, d, _, ⟨hd, rfl⟩, m, _, ⟨hm, rfl⟩, n, _,
      ⟨hn, rfl⟩, _, _, hcopy, ⟨⟩⟩ := h
    exact .arrayCopy ha hd hm hn hgiven hcopy
  | wrapAdapter k array =>
    simp only [eval, bind_eq_ok, lift_eq_ok] at h
    obtain ⟨a, _, ⟨ha, rfl⟩, ⟨⟩⟩ := h
    exact .wrapAdapter ha
  | copyFromGeneric k sequence =>
    simp only [eval, bind_eq_ok, lift_eq_ok, mapError_eq_ok] at h
    obtain ⟨q, _, ⟨hq, rfl⟩, a, _, hcopy, ⟨⟩⟩ := h
    exact .copyFromGeneric hq hcopy
  | invokeWrapper => cases h
  | genericSize sequence =>
    simp only [eval, bind_eq_ok, lift_eq_ok] at h
    obtain ⟨q, _, ⟨hq, rfl⟩, _, _, ⟨⟩, ⟨⟩⟩ := h
    exact .genericSize hq
  | genericGet sequence index =>
    simp only [eval, bind_eq_ok, lift_eq_ok, Check.mapError_eq_ok] at h
    obtain ⟨q, _, ⟨hq, rfl⟩, n, _, ⟨hn, rfl⟩, _, _, ⟨⟩, i, _, ⟨hi, rfl⟩, item, _, hitem, h⟩ := h
    injection hitem with hitem hs
    subst hs
    cases item with
    | none => cases h
    | some b =>
      cases h
      exact .genericGet hq hn hi hitem
  | genericSet sequence index value =>
    simp only [eval, bind_eq_ok, lift_eq_ok, mapError_eq_ok, Check.mapError_eq_ok] at h
    obtain ⟨q, _, ⟨hq, rfl⟩, n, _, ⟨hn, rfl⟩, _, _, ⟨⟩, i, _, ⟨hi, rfl⟩, b, _, ⟨hb, rfl⟩, _, _,
      hset, ⟨⟩⟩ := h
    exact .genericSet hq hn hi hb hset
  | typeTest value d =>
    simp only [eval, bind_eq_ok, lift_eq_ok] at h
    obtain ⟨r, _, ⟨hr, rfl⟩, ⟨⟩⟩ := h
    exact .typeTest hr
  | typeOf value =>
    simp only [eval, bind_eq_ok, lift_eq_ok] at h
    obtain ⟨r, _, ⟨hr, rfl⟩, ⟨⟩⟩ := h
    exact .typeOf hr
  | sequenceLit element items =>
    cases h
    exact .sequenceLit

/-- Each of these evaluations ends. -/
theorem Expr.Evaluates.eval_eq (h : e.Evaluates env s v s') : e.eval env s = .ok v s' := by
  -- operands are read in the order of the evaluator, and the action on the store comes last
  cases h with
  | var hv => rw [eval, Env.value_eq_ok.mpr hv, Action.lift_ok, Action.pure_apply]
  | intLit | primLit | sequenceLit => rfl
  | tuple hvs =>
    simp only [eval, mapM_value_eq_ok.mpr hvs, Action.lift_ok, Action.pure_bind_apply,
      Action.pure_apply]
  | newArray hn hnew =>
    simp only [eval, hn, Action.lift_ok, Action.pure_bind_apply]
    exact Action.bind_of_ok (Action.mapError_of_ok hnew)
  | fillArray hn hp hnew =>
    simp only [eval, hn, hp, Action.lift_ok, Action.pure_bind_apply]
    exact Action.bind_of_ok (Action.mapError_of_ok hnew)
  | load ha hn hget =>
    simp only [eval, ha, hn, Action.lift_ok, Action.pure_bind_apply]
    exact Action.bind_of_ok (Action.mapError_of_ok hget)
  | store ha hn hp hset =>
    simp only [eval, ha, hn, hp, Action.lift_ok, Action.pure_bind_apply]
    exact Action.bind_of_ok (Action.mapError_of_ok hset)
  | arrayCopy ha hd hm hn hlength hcopy =>
    simp only [eval, ha, hd, hm, hn, hlength, Action.lift_ok, Action.pure_bind_apply]
    exact Action.bind_of_ok (Action.mapError_of_ok hcopy)
  | copyFromGeneric hq hcopy =>
    simp only [eval, hq, Action.lift_ok, Action.pure_bind_apply]
    exact Action.bind_of_ok (Action.mapError_of_ok hcopy)
  | arrayLength h | wrapAdapter h | genericSize h | typeTest h | typeOf h =>
    simp only [eval, h, Action.lift_ok, Action.pure_bind_apply, Action.view_bind_apply,
      Action.pure_apply]
  | genericGet hq hn hi hb =>
    simp only [eval, hq, hn, Check.mapError_eq_ok.mpr hi, hb, Action.lift_ok,
      Action.pure_bind_apply, Action.view_bind_apply, Action.pure_apply]
  | genericSet hq hn hi hb hset =>
    simp only [eval, hq, hn, Check.mapError_eq_ok.mpr hi, hb, Action.lift_ok,
      Action.pure_bind_apply, Action.view_bind_apply]
    exact Action.bind_of_ok (Action.mapError_of_ok hset)

/-- An evaluation ends exactly when it is one of those listed. -/
theorem Expr.eval_eq_ok : e.eval env s = .ok v s' ↔ e.Evaluates env s v s' :=
  ⟨evaluates_of_eval, Evaluates.eval_eq⟩

/-- They are of the types that the types of the locals look up. -/
private theorem mapM_type_of_forall₂ {items : List Local} {vs : List Value}
    (h : List.Forall₂ (fun l v => env[l]? = some v) items vs) :
    items.mapM ((env.map Value.type)[·]?) = some (vs.map Value.type) := by
  refine mapM_eq_some_iff.mpr (List.forall₂_map_right_iff.mpr ?_)
  refine h.imp fun l v hv => ?_
  rw [List.getElem?_map, hv, Option.map_some]

/-- The value of an expression is of the type that the expression has, given the types of the
values of the locals. -/
theorem Expr.type_of_eval (h : e.eval env s = .ok v s') :
    (e.type? (env.map Value.type)).map Ty.plain = some v.type := by
  cases evaluates_of_eval h with
  | var hv =>
    rw [type?, List.getElem?_map, hv]
    simp
  | @tuple items vs hvs =>
    rw [type?, mapM_type_of_forall₂ hvs, ← Value.typeAll_eq_map]
    exact congrArg some (Value.plain_type (.tuple vs))
  -- the kind of an array is that of the operation
  | newArray _ hnew | fillArray _ _ hnew =>
    rw [Value.type, ArrayRef.kind_of_new hnew]
    rfl
  | copyFromGeneric _ hcopy =>
    rw [Value.type, ArrayRef.kind_of_ofSequence hcopy]
    rfl
  | load ha _ hget =>
    rw [Value.type, ArrayRef.kind_of_get hget, (Env.array_eq_ok.mp ha).2]
    rfl
  | _ => rfl

end

/-! ## Failures -/

/-- The failures that are left when every operand may play its role: a fault of the array or the
sequence itself, an object that is not a sequence or not an element where one is needed, and a
value that does not know its own type. -/
inductive Expr.Remaining (env : Env) (e : Expr) : RunError → Prop
  | array {fault : ArrayFault} (h : ¬ fault.IsKindMismatch) : Remaining env e (.array fault)
  | sequence {fault : SequenceFault} (h : ¬ fault.IsKindMismatch) :
    Remaining env e (.sequence fault)
  | notSequence {l : Local} {b : Boxed} (hl : (.sequence, l) ∈ e.operands)
    (hv : env[l]? = some (.boxed b)) :
    Remaining env e (.dynamicType l .sequence (.boxed b.typeName))
  | notElement {l : Local} {q : Sequence} (hl : (.element, l) ∈ e.operands)
    (hv : env[l]? = some (.sequence q)) :
    Remaining env e (.dynamicType l .element (.sequence q.descriptor))
  | notReified {l : Local} {v : Value} (hl : (.reified, l) ∈ e.operands)
    (hv : env[l]? = some v) (hhead : v.head ∈ [Head.unit, .descriptor, .tuple]) :
    Remaining env e (.dynamicType l .reified v.shape)

/-- Whether every operand of an expression may play its role. -/
def Expr.OperandsPlay (env : Env) (e : Expr) : Prop :=
  ∀ role l, (role, l) ∈ e.operands → role.Plays env l

/-- A step that gives its value as it is does not fail. -/
private theorem bind_pure_eq_error {α β : Type} {x : Action RunError α} {f : α → β} {s s' : Store}
    {error : RunError} (h : (x >>= fun a => pure (f a)) s = .error error s') :
    x s = .error error s' := by
  rcases bind_eq_error.mp h with h | ⟨_, _, -, h⟩
  · exact h
  · cases h

/-- Items that are all bound are all read. -/
theorem exists_mapM_value {env : Env} {items : List Local}
    (h : ∀ l ∈ items, Role.value.Plays env l) : ∃ vs, items.mapM env.value = .ok vs :=
  exists_mapM_eq_ok fun l hl => (h l hl).value

/-- An offset that is a constant is read in any environment. -/
theorem exists_offset {env : Env} {o : Operand}
    (h : ∀ role l, (role, l) ∈ o.operands → role.Plays env l) : ∃ n, env.offset o = .ok n := by
  cases o with
  | read l => exact (h .integer l (by simp [Operand.operands, Operand.usedLocals])).integer
  | const n => exact ⟨n, rfl⟩

/-- So is a length that is left out. -/
theorem exists_copyLength {env : Env} {n : CopyLength}
    (h : ∀ role l, (role, l) ∈ n.operands → role.Plays env l) :
    ∃ length, env.copyLength n = .ok length := by
  cases n with
  | explicit o =>
    obtain ⟨n, hn⟩ := exists_offset (o := o) h
    exact ⟨some n, by rw [Env.copyLength, hn]; rfl⟩
  | remaining => exact ⟨none, rfl⟩

namespace Expr.Remaining

variable {env : Env} {e : Expr} {l : Local} {s s' : Store} {error : RunError}

/-- An expression that starts by reading a sequence fails for want of one, or later. -/
theorem of_sequence {f : Sequence → Action RunError Value} (hplay : e.OperandsPlay env)
    (hl : (.sequence, l) ∈ e.operands)
    (h : (Action.lift (env.sequence l) >>= f) s = .error error s')
    (hrest : ∀ q, env.sequence l = .ok q → f q s = .error error s' → e.Remaining env error) :
    e.Remaining env error := by
  -- The operand is a sequence, or a single boxed element that its declared type does not exclude.
  rcases (hplay .sequence l hl).sequence with ⟨q, hq⟩ | ⟨b, hb, hq⟩
  · rw [hq, Action.lift_ok, Action.pure_bind_apply] at h
    exact hrest q hq h
  · rw [hq, Action.lift_error, Action.throw_bind_apply] at h
    injection h with h
    exact h ▸ .notSequence hl hb

/-- An expression that starts by asking a value for its type fails for want of one, or later. -/
theorem of_reified {f : Reified → Action RunError Value} (hplay : e.OperandsPlay env)
    (hl : (.reified, l) ∈ e.operands)
    (h : (Action.lift (env.reified l) >>= f) s = .error error s')
    (hrest : ∀ r, f r s = .error error s' → e.Remaining env error) : e.Remaining env error := by
  rcases (hplay .reified l hl).reified with ⟨r, hr⟩ | ⟨v, hv, hhead, hr⟩
  · rw [hr, Action.lift_ok, Action.pure_bind_apply] at h
    exact hrest r h
  · rw [hr, Action.lift_error, Action.throw_bind_apply] at h
    injection h with h
    exact h ▸ .notReified hl hv hhead

end Expr.Remaining

/-- An evaluation whose operands play their roles fails with what remains: a fault of the operation
that is not over kinds, or a value that is looked into and is not what it should be. -/
theorem Expr.remaining_of_eval {env : Env} {e : Expr} {s s' : Store} {error : RunError}
    (hplay : e.OperandsPlay env) (h : e.eval env s = .error error s') :
    e.Remaining env error := by
  -- no operand fails to be read, so what fails is the operation itself
  cases e with
  | var l =>
    obtain ⟨v, hv⟩ := (hplay .value l (by simp [operands])).value
    rw [eval, hv] at h
    cases h
  | intLit | primLit | sequenceLit => cases h
  | tuple items =>
    obtain ⟨vs, hvs⟩ := exists_mapM_value fun l hl => hplay .value l (by simpa [operands] using hl)
    rw [eval, hvs] at h
    cases h
  | newArray k size =>
    obtain ⟨n, hn⟩ := (hplay .integer size (by simp [operands])).integer
    simp only [eval, hn, Action.lift_ok, Action.pure_bind_apply] at h
    obtain ⟨fault, hfault, rfl⟩ := mapError_eq_error.mp (bind_pure_eq_error h)
    exact .array (ArrayRef.not_isKindMismatch_of_new (by simp) hfault)
  | fillArray k size element =>
    obtain ⟨n, hn⟩ := (hplay .integer size (by simp [operands])).integer
    obtain ⟨p, hp, hk⟩ := (hplay (.prim k) element (by simp [operands])).prim
    simp only [eval, hn, hp, Action.lift_ok, Action.pure_bind_apply] at h
    obtain ⟨fault, hfault, rfl⟩ := mapError_eq_error.mp (bind_pure_eq_error h)
    exact .array (ArrayRef.not_isKindMismatch_of_new (by simpa using hk) hfault)
  | load k array index =>
    obtain ⟨a, ha, -⟩ := (hplay (.array k) array (by simp [operands])).array
    obtain ⟨n, hn⟩ := (hplay .integer index (by simp [operands])).integer
    simp only [eval, ha, hn, Action.lift_ok, Action.pure_bind_apply] at h
    obtain ⟨fault, hfault, rfl⟩ := mapError_eq_error.mp (bind_pure_eq_error h)
    exact .array (ArrayRef.not_isKindMismatch_of_get hfault)
  | store k array index value =>
    obtain ⟨a, ha, hk⟩ := (hplay (.array k) array (by simp [operands])).array
    obtain ⟨n, hn⟩ := (hplay .integer index (by simp [operands])).integer
    obtain ⟨p, hp, hpk⟩ := (hplay (.prim k) value (by simp [operands])).prim
    simp only [eval, ha, hn, hp, Action.lift_ok, Action.pure_bind_apply] at h
    obtain ⟨fault, hfault, rfl⟩ := mapError_eq_error.mp (bind_pure_eq_error h)
    exact .array (ArrayRef.not_isKindMismatch_of_set (hpk.trans hk.symm) hfault)
  | arrayLength k array =>
    obtain ⟨a, ha, -⟩ := (hplay (.array k) array (by simp [operands])).array
    simp only [eval, ha, Action.lift_ok, Action.pure_bind_apply] at h
    cases bind_pure_eq_error h
  | arrayCopy k source sourceOffset destination destinationOffset length =>
    obtain ⟨n, hn⟩ := exists_copyLength (n := length) fun role l hl =>
      hplay role l (by simp [operands, hl])
    obtain ⟨a, ha, hk⟩ := (hplay (.array k) source (by simp [operands])).array
    obtain ⟨d, hd, hdk⟩ := (hplay (.array k) destination (by simp [operands])).array
    obtain ⟨so, hso⟩ := exists_offset (o := sourceOffset) fun role l hl =>
      hplay role l (by simp [operands, hl])
    obtain ⟨dof, hdof⟩ := exists_offset (o := destinationOffset) fun role l hl =>
      hplay role l (by simp [operands, hl])
    simp only [eval, hn, ha, hd, hso, hdof, Action.lift_ok, Action.pure_bind_apply] at h
    obtain ⟨fault, hfault, rfl⟩ := mapError_eq_error.mp (bind_pure_eq_error h)
    exact .array (ArrayRef.not_isKindMismatch_of_copyTo (hdk.trans hk.symm) hfault)
  | wrapAdapter k array =>
    obtain ⟨a, ha, -⟩ := (hplay (.array k) array (by simp [operands])).array
    simp only [eval, ha, Action.lift_ok, Action.pure_bind_apply] at h
    cases h
  | copyFromGeneric k sequence =>
    refine .of_sequence hplay (by simp [operands]) h fun q _ h => ?_
    obtain ⟨fault, hfault, rfl⟩ := mapError_eq_error.mp (bind_pure_eq_error h)
    exact .array (ArrayRef.not_isKindMismatch_of_ofSequence hfault)
  | invokeWrapper k op =>
    injection h with h
    exact h ▸ .array id
  | genericSize sequence =>
    -- only the sequence is read, and looking at its size does not fail
    refine .of_sequence hplay (by simp [operands]) h fun q _ h => ?_
    cases bind_pure_eq_error h
  | genericGet sequence index =>
    obtain ⟨n, hn⟩ := (hplay .integer index (by simp [operands])).integer
    refine .of_sequence hplay (by simp [operands]) h fun q hq _ => ?_
    rw [eval_genericGet hq hn] at h
    split at h
    · cases h
    · injection h with h
      exact h ▸ .sequence id
  | genericSet sequence index value =>
    obtain ⟨n, hn⟩ := (hplay .integer index (by simp [operands])).integer
    refine .of_sequence hplay (by simp [operands]) h fun q hq _ => ?_
    rw [eval_genericSet value hq hn] at h
    split at h
    · -- within the items the value is looked at, and has to be an element
      rcases (hplay .element value (by simp [operands])).element with ⟨b, hb⟩ | ⟨q', hq', hb⟩
      · rw [hb, Action.lift_ok, Action.pure_bind_apply] at h
        obtain ⟨fault, hfault, rfl⟩ := mapError_eq_error.mp (bind_pure_eq_error h)
        exact .sequence (Sequence.not_isKindMismatch_of_setItem hfault)
      · rw [hb, Action.lift_error, Action.throw_bind_apply] at h
        injection h with h
        exact h ▸ .notElement (by simp [operands]) hq'
    · injection h with h
      exact h ▸ .sequence id
  | typeTest value | typeOf value =>
    exact .of_reified hplay (by simp [operands]) h fun _ h => by cases h

end ArrayBridge.Erased
