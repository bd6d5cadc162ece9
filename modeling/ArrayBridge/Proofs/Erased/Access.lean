import ArrayBridge.Proofs.Erased.Evaluation
import ArrayBridge.Proofs.Store.Sequences

/-!
# Generic and native access

A native array can be used by the operations on arrays and, through a view, by those on generic
sequences. The second way boxes and unboxes, checks the index once more and has faults of its own.
Each generic operation on a view is given as one case distinction, on the index and on what the
value unboxes to, and set beside the native one.

Main results:

* `eval_load`, `eval_store` — the native operations.
* `eval_genericGet_view`, `eval_genericSet_view` — the generic operations on a view.
* `access_agrees` — on one array, the generic operations agree with the native ones.
-/

namespace ArrayBridge.Erased

/-- An index of a program lies within an array or a sequence of the given length. -/
abbrev InRange (index : Int64) (length : Nat) : Prop := 0 ≤ index.toInt ∧ index.toInt < length

section

variable {env : Env} {s : Store} {k : Kind} {array view index value : Local} {a : ArrayRef}
  {i : Int64} {x : Prim}

/-! ## Native access -/

theorem eval_arrayLength (ha : env.array k array = .ok a) :
    (Expr.arrayLength k array).eval env s = .ok (.integer (Int64.ofNat (s.length a))) s := by
  simp only [Expr.eval, ha, Action.lift_ok, Action.pure_bind_apply, Action.view_bind_apply]
  rfl

/-- A native load checks its index against the length. -/
theorem eval_load (ha : env.array k array = .ok a) (hi : env.integer index = .ok i) :
    (Expr.load k array index).eval env s =
      if InRange i (s.length a) then .ok (.prim (s.element a i.toInt.toNat)) s
      else .error (.array (.indexOutOfBounds .get a.kind i (s.length a))) s := by
  simp only [Expr.eval, ha, hi, Action.lift_ok, Action.pure_bind_apply]
  have hget := ArrayRef.get_apply s a i
  by_cases hrange : InRange i (s.length a)
  · rw [if_pos hrange] at hget
    rw [Action.bind_of_ok (Action.mapError_of_ok hget), if_pos hrange]
    rfl
  · rw [if_neg hrange] at hget
    rw [Action.bind_of_error (Action.mapError_of_error hget), if_neg hrange]

/-- So does a native store of a value of the kind of the array. -/
theorem eval_store (ha : env.array k array = .ok a) (hi : env.integer index = .ok i)
    (hx : env.prim value = .ok x) (hkind : x.kind = a.kind) :
    (Expr.store k array index value).eval env s =
      if InRange i (s.length a) then .ok .unit (s.write a i.toInt.toNat x)
      else .error (.array (.indexOutOfBounds .set a.kind i (s.length a))) s := by
  simp only [Expr.eval, ha, hi, hx, Action.lift_ok, Action.pure_bind_apply]
  have hset := ArrayRef.set_apply s a i x hkind
  by_cases hrange : InRange i (s.length a)
  · rw [if_pos hrange] at hset
    rw [Action.bind_of_ok (Action.mapError_of_ok hset), if_pos hrange]
    rfl
  · rw [if_neg hrange] at hset
    rw [Action.bind_of_error (Action.mapError_of_error hset), if_neg hrange]

/-! ## Access through a view -/

theorem eval_genericSize {q : Sequence} (hq : env.sequence view = .ok q) :
    (Expr.genericSize view).eval env s = .ok (.integer (Int64.ofNat (q.size s))) s := by
  simp only [Expr.eval, hq, Action.lift_ok, Action.pure_bind_apply, Action.view_bind_apply]
  rfl

/-- The item of a view at an index is the boxed element of the array. -/
theorem itemAt?_view :
    itemAt? (s.itemsOf a.toSequence) i =
      if InRange i (s.length a) then some (s.element a i.toInt.toNat).box else none := by
  -- A view has as many items as its array has elements, so both ask for the same range.
  have hsize : a.toSequence.size s = s.length a := rfl
  rw [itemAt?_itemsOf, hsize]
  by_cases hrange : InRange i (s.length a)
  · have hlt : i.toInt.toNat < s.length a := by
      obtain ⟨hlo, hhi⟩ := hrange
      omega
    rw [if_pos hrange, if_pos hrange, ← Sequence.getElem?_itemsOf, ArrayRef.toSequence,
      Store.itemsOf, List.getElem?_map, Store.getElem?_elements_of_lt s a hlt, Option.map_some]
  · rw [if_neg hrange, if_neg hrange]

/-- An item of a view is the boxed element; the index is checked against the same length. -/
theorem eval_genericGet_view (hv : env.sequence view = .ok a.toSequence)
    (hi : env.integer index = .ok i) :
    (Expr.genericGet view index).eval env s =
      if InRange i (s.length a) then .ok (.boxed (s.element a i.toInt.toNat).box) s
      else .error (.sequence (.indexOutOfBounds i (s.length a))) s := by
  rw [eval_genericGet hv hi, itemAt?_view]
  by_cases hrange : InRange i (s.length a)
  · rw [if_pos hrange, if_pos hrange]
  · rw [if_neg hrange, if_neg hrange]
    rfl

/-- The second check, of the array behind the view, is of the same index and never fails. -/
theorem setItem_view {b : Boxed} (hrange : InRange i (s.length a)) :
    a.toSequence.setItem i.toInt.toNat b s =
      match a.kind.unbox b with
      | some p => .ok () (s.write a i.toInt.toNat p)
      | none => .error (.array (.typeMismatch .set a.kind i b)) s := by
  -- An index that was an `Int64` before is one again, so the array sees the index that was given.
  have hindex : i.toInt.toNat ≤ Sequence.maxIndex := by
    have hlt : i.toInt < 2 ^ 63 := Int64.toInt_lt i
    rw [Sequence.maxIndex]
    omega
  have hbounded : Int64.ofNat (min i.toInt.toNat Sequence.maxIndex) = i := by
    rw [← Int64.toInt_inj, Sequence.toInt_ofNat_min hindex]
    exact Int.toNat_of_nonneg hrange.1
  rw [ArrayRef.toSequence, Sequence.setItem_view_apply]
  dsimp only
  rw [hbounded]
  cases a.kind.unbox b with
  | none => rfl
  | some p => exact if_pos hrange

/-- Setting through a view checks the index, then unboxes the value, and then writes. -/
theorem eval_genericSet_view (hv : env.sequence view = .ok a.toSequence)
    (hi : env.integer index = .ok i) (hx : env.prim value = .ok x) :
    (Expr.genericSet view index value).eval env s =
      if InRange i (s.length a) then
        match a.kind.unbox x.box with
        | some p => .ok .unit (s.write a i.toInt.toNat p)
        | none => .error (.sequence (.array (.typeMismatch .set a.kind i x.box))) s
      else .error (.sequence (.indexOutOfBounds i (s.length a))) s := by
  have helement : env.element value = .ok x.box :=
    Env.operand_eq_ok.mpr ⟨_, Env.prim_eq_ok.mp hx, rfl⟩
  rw [eval_genericSet value hv hi, itemAt?_view]
  by_cases hrange : InRange i (s.length a)
  · -- the index is checked already, so only the kind of the value is left to be looked at
    have hset := setItem_view (b := x.box) hrange
    rw [if_pos hrange, if_pos hrange]
    simp only [helement, Action.lift_ok, Action.pure_bind_apply]
    cases hunbox : a.kind.unbox x.box with
    | some p =>
      rw [hunbox] at hset
      rw [Action.bind_of_ok (Action.mapError_of_ok hset)]
      rfl
    | none =>
      rw [hunbox] at hset
      rw [Action.bind_of_error (Action.mapError_of_error hset)]
  · rw [if_neg hrange, if_neg hrange]
    rfl

end

/-! ## Agreement -/

/-- Locals for an array, a view of it, an index and a primitive value. -/
structure Accesses (env : Env) (array view index value : Local) (a : ArrayRef) (i : Int64)
    (x : Prim) : Prop where
  array : env[array]? = some (.array a)
  view : env[view]? = some (.sequence a.toSequence)
  index : env[index]? = some (.integer i)
  value : env[value]? = some (.prim x)

/-- The generic operations on a view agree with the native ones on its array, for one index and one
value and in one state of the store. -/
structure AccessAgrees (env : Env) (s : Store) (array view index value : Local) (a : ArrayRef)
    (i : Int64) (x : Prim) : Prop where
  /-- Both lengths are that of the array. -/
  size : (Expr.arrayLength a.kind array).eval env s =
        .ok (.integer (Int64.ofNat (s.length a))) s ∧
      (Expr.genericSize view).eval env s = .ok (.integer (Int64.ofNat (s.length a))) s
  /-- What is listed for the array and for the view are the boxed elements. -/
  elements : (Value.array a).elements? s = some ((s.elements a).map Prim.box) ∧
    (Value.sequence a.toSequence).elements? s = some ((s.elements a).map Prim.box)
  /-- Within the array both ways read the same element. -/
  read (hrange : InRange i (s.length a)) : ∃ p, (s.elements a)[i.toInt.toNat]? = some p ∧
      (Expr.load a.kind array index).eval env s = .ok (.prim p) s ∧
      (Expr.genericGet view index).eval env s = .ok (.boxed p.box) s
  /-- Outside of it both fail with the index and the length. -/
  read_outside (hrange : ¬ InRange i (s.length a)) :
      (Expr.load a.kind array index).eval env s =
        .error (.array (.indexOutOfBounds .get a.kind i (s.length a))) s ∧
      (Expr.genericGet view index).eval env s =
        .error (.sequence (.indexOutOfBounds i (s.length a))) s
  /-- A value of the array's kind is written alike, bit for bit unless it is a NaN of kind `float`,
  of which a NaN is written. -/
  write (hkind : x.kind = a.kind) (hrange : InRange i (s.length a)) : ∃ s' s'' y,
      (Expr.store a.kind array index value).eval env s = .ok .unit s' ∧
      (Expr.genericSet view index value).eval env s = .ok .unit s'' ∧
      s'.elements a = (s.elements a).set i.toInt.toNat x ∧
      s''.elements a = (s.elements a).set i.toInt.toNat y ∧
      y.UpToNaN x ∧ (¬ x.IsFloatNaN → y = x ∧ s'' = s')
  /-- Both writes fail outside of the array. -/
  write_outside (hkind : x.kind = a.kind) (hrange : ¬ InRange i (s.length a)) :
      (Expr.store a.kind array index value).eval env s =
        .error (.array (.indexOutOfBounds .set a.kind i (s.length a))) s ∧
      (Expr.genericSet view index value).eval env s =
        .error (.sequence (.indexOutOfBounds i (s.length a))) s
  /-- Of any value, the element it unboxes to is stored, as if it had been bound by itself. -/
  write_unboxed (hrange : InRange i (s.length a)) {y : Prim}
      (hunbox : a.kind.unbox x.box = some y) : ∃ s',
      (Expr.store a.kind array index env.length).eval (env ++ [.prim y]) s = .ok .unit s' ∧
      (Expr.genericSet view index value).eval env s = .ok .unit s' ∧
      s'.elements a = (s.elements a).set i.toInt.toNat y
  /-- A value that does not unbox to the array's kind is refused, and nothing is written. -/
  write_refused (hrange : InRange i (s.length a)) (hunbox : a.kind.unbox x.box = none) :
      (Expr.genericSet view index value).eval env s =
        .error (.sequence (.array (.typeMismatch .set a.kind i x.box))) s

/-- The generic operations on a view agree with the native ones on its array: in the length and the
elements, in which indices they accept, in what they read and in what they leave in the array. -/
theorem access_agrees {env : Env} {array view index value : Local} {a : ArrayRef} {i : Int64}
    {x : Prim} (h : Accesses env array view index value a i x) (s : Store) :
    AccessAgrees env s array view index value a i x := by
  have harray : env.array a.kind array = .ok a := Env.array_eq_ok.mpr ⟨h.array, rfl⟩
  have hview : env.sequence view = .ok a.toSequence := Env.sequence_eq_ok.mpr h.view
  have hindex : env.integer index = .ok i := Env.integer_eq_ok.mpr h.index
  have hvalue : env.prim value = .ok x := Env.prim_eq_ok.mpr h.value
  constructor
  case size => exact ⟨eval_arrayLength harray, eval_genericSize hview⟩
  case elements => exact ⟨rfl, rfl⟩
  case read =>
    intro hrange
    have hlt : i.toInt.toNat < s.length a := by
      obtain ⟨hlo, hhi⟩ := hrange
      omega
    refine ⟨s.element a i.toInt.toNat, Store.getElem?_elements_of_lt s a hlt, ?_, ?_⟩
    · rw [eval_load harray hindex, if_pos hrange]
    · rw [eval_genericGet_view hview hindex, if_pos hrange]
  case read_outside =>
    intro hrange
    constructor
    · rw [eval_load harray hindex, if_neg hrange]
    · rw [eval_genericGet_view hview hindex, if_neg hrange]
  case write =>
    intro hkind hrange
    -- an element of the array's kind comes back from its boxed form, and only a NaN as another one
    obtain ⟨y, hy, hsame⟩ := x.exists_unbox_box
    have hunbox : a.kind.unbox x.box = some y := hkind ▸ hy
    have hykind : y.kind = a.kind := hsame.kind_eq.trans hkind
    refine ⟨s.write a i.toInt.toNat x, s.write a i.toInt.toNat y, y, ?_, ?_,
      Store.elements_write rfl hkind, Store.elements_write rfl hykind, hsame, fun hnan => ?_⟩
    · rw [eval_store harray hindex hvalue hkind, if_pos hrange]
    · rw [eval_genericSet_view hview hindex hvalue, if_pos hrange, hunbox]
    · have hyx : y = x := Option.some.inj (hy.symm.trans (Prim.unbox_box hnan))
      exact ⟨hyx, congrArg (s.write a i.toInt.toNat) hyx⟩
  case write_outside =>
    intro hkind hrange
    constructor
    · rw [eval_store harray hindex hvalue hkind, if_neg hrange]
    · rw [eval_genericSet_view hview hindex hvalue, if_neg hrange]
  case write_unboxed =>
    intro hrange y hunbox
    have hkind : y.kind = a.kind := Kind.kind_of_unbox hunbox
    -- the locals are the same after the unboxed value has been bound
    have harray' : Env.array (env ++ [.prim y]) a.kind array = .ok a :=
      Env.array_eq_ok.mpr ⟨getElem?_append_of_eq_some h.array, rfl⟩
    have hindex' : Env.integer (env ++ [.prim y]) index = .ok i :=
      Env.integer_eq_ok.mpr (getElem?_append_of_eq_some h.index)
    have hvalue' : Env.prim (env ++ [.prim y]) env.length = .ok y :=
      Env.prim_eq_ok.mpr List.getElem?_concat_length
    refine ⟨s.write a i.toInt.toNat y, ?_, ?_, Store.elements_write rfl hkind⟩
    · rw [eval_store harray' hindex' hvalue' hkind, if_pos hrange]
    · rw [eval_genericSet_view hview hindex hvalue, if_pos hrange, hunbox]
  case write_refused =>
    intro hrange hunbox
    rw [eval_genericSet_view hview hindex hvalue, if_pos hrange, hunbox]

/-- A long that fits is stored in an array of shorts. -/
theorem access_agrees_short :
    Accesses [.array ⟨.short, 0⟩, .sequence (.view ⟨.short, 0⟩), .integer 1, .prim (.long 7)]
        0 1 2 3 ⟨.short, 0⟩ 1 (.long 7) ∧
      AccessAgrees [.array ⟨.short, 0⟩, .sequence (.view ⟨.short, 0⟩), .integer 1,
        .prim (.long 7)] ⟨#[#[5, 6]], #[]⟩ 0 1 2 3 ⟨.short, 0⟩ 1 (.long 7) :=
  ⟨⟨rfl, rfl, rfl, rfl⟩, access_agrees ⟨rfl, rfl, rfl, rfl⟩ _⟩

end ArrayBridge.Erased
