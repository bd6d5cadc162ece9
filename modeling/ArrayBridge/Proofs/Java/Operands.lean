import ArrayBridge.Erased.Run
import ArrayBridge.Proofs.Erased.Runs
import ArrayBridge.Proofs.Java.Operations

/-!
# Variables and operands

`Tracks` is the invariant between two bindings of a program that is run beside its method: every
bound value that is not the unit value is held by the variable of its local, there are no other
variables, and heap and store agree. From it follow the values of the expressions that stand for
the operands of a binding.

Main results:

* `Tracks.bind`, `Tracks.bindUnit` — the invariant after a binding.
* `eval_localExpr` — the expression of a local has the value that is bound to it.
* `narrows_operand`, `eval_copyLengthExpr` — offsets and lengths as `int` operands.
-/

namespace ArrayBridge.Java

open ArrayBridge.Action (bind_of_ok bind_of_error)
open ArrayBridge.Erased (CopyLength Env Operand)

/-! ## The invariant -/

/-- Whether the variables and the heap of an execution hold what a program has bound so far, at
the declared types `bound`. -/
structure Tracks (nans : NaNs) (bound : List Erased.Ty) (env : Env) (frame : Frame) (s : Store)
    (h : Heap) : Prop where
  heads : env.map Erased.Value.head = bound.map Erased.Ty.head
  /-- Of the unit value there is only one, and no variable holds it. -/
  vars : ∀ (l : Local) (v : Erased.Value), env[l]? = some v → v ≠ .unit →
    ∃ w, frame (localName l) = some w ∧ Stands nans h v w
  names : ∀ name, frame name ≠ none → ∃ l, l < env.length ∧ name = localName l
  agrees : Agrees nans s h

namespace Tracks

variable {nans : NaNs} {bound : List Erased.Ty} {env : Env} {frame : Frame} {s s' : Store}
  {h h' : Heap}

theorem empty : Tracks nans [] [] (fun _ => none) .empty .empty := by
  refine ⟨rfl, fun l v hv => ?_, fun name hname => absurd rfl hname, .empty⟩
  simp at hv

/-- The variable of the next local is free. -/
theorem free (ht : Tracks nans bound env frame s h) : frame (localName env.length) = none := by
  by_contra hname
  obtain ⟨l, hl, heq⟩ := ht.names _ hname
  have hlast := localName_injective heq
  exact Nat.ne_of_gt hl hlast

/-- No variable hides a class. -/
theorem class_free (ht : Tracks nans bound env frame s h) {name : String}
    (hname : name.toList.head? ≠ some 'l') : frame name = none := by
  by_contra hvar
  obtain ⟨l, -, heq⟩ := ht.names _ hvar
  exact localName_ne hname l heq

/-- A static call goes to the class that is named, since no local has the name of a class. -/
theorem call_eq (ht : Tracks nans bound env frame s h) {name method : String} {args : List Value}
    (hname : name.toList.head? ≠ some 'l') :
    frame.call name method args = callStatic name method args := by
  rw [Frame.call, ht.class_free hname]
  rfl

/-- Earlier values are held on a later heap as well. -/
theorem mono (ht : Tracks nans bound env frame s h) (hext : h.Extends h')
    (hagrees : Agrees nans s' h') :
    Tracks nans bound env frame s' h' := by
  refine ⟨ht.heads, fun l v hv hne => ?_, ht.names, hagrees⟩
  obtain ⟨w, hw, hstands⟩ := ht.vars l v hv hne
  exact ⟨w, hw, hstands.extends hext⟩

/-! ### Binding a local -/

/-- Locals and their types are bound together. -/
theorem heads_concat (ht : Tracks nans bound env frame s h) {v : Erased.Value} {type : Erased.Ty}
    (hhead : v.head = type.head) :
    (env ++ [v]).map Erased.Value.head = (bound ++ [type]).map Erased.Ty.head := by
  rw [List.map_append, List.map_append, ht.heads, List.map_singleton, List.map_singleton, hhead]

/-- A value is bound to a variable of its own. -/
theorem bind (ht : Tracks nans bound env frame s h) {v : Erased.Value} {type : Erased.Ty}
    {w : Value} (hhead : v.head = type.head) (hstands : Stands nans h v w) :
    Tracks nans (bound ++ [type]) (env ++ [v])
      (Function.update frame (localName env.length) (some w)) s h := by
  refine ⟨ht.heads_concat hhead, ?_, ?_, ht.agrees⟩
  · intro l u hu hne
    rw [List.getElem?_append] at hu
    split at hu
    · -- an earlier local keeps its variable
      rename_i hl
      have hname : localName l ≠ localName env.length :=
        fun heq => Nat.ne_of_lt hl (localName_injective heq)
      rw [Function.update_of_ne hname]
      exact ht.vars l u hu hne
    · rename_i hl
      rw [List.getElem?_singleton] at hu
      split at hu
      · rename_i hlast
        injection hu with hu
        have hl' : l = env.length :=
          Nat.le_antisymm (Nat.le_of_sub_eq_zero hlast) (Nat.not_lt.mp hl)
        exact ⟨w, by rw [hl', Function.update_self], hu ▸ hstands⟩
      · cases hu
  · -- no variable but those of locals and the new one
    intro name hname
    rw [List.length_append, List.length_singleton]
    by_cases hlast : name = localName env.length
    · exact ⟨env.length, Nat.lt_succ_self _, hlast⟩
    · rw [Function.update_of_ne hlast] at hname
      obtain ⟨l, hl, heq⟩ := ht.names name hname
      exact ⟨l, Nat.lt_succ_of_lt hl, heq⟩

/-- The unit value is bound to no variable. -/
theorem bindUnit (ht : Tracks nans bound env frame s h) {type : Erased.Ty}
    (htype : type.head = .unit) :
    Tracks nans (bound ++ [type]) (env ++ [.unit]) frame s h := by
  refine ⟨ht.heads_concat htype.symm, ?_, ?_, ht.agrees⟩
  · intro l u hu hne
    rw [List.getElem?_append] at hu
    split at hu
    · exact ht.vars l u hu hne
    · rw [List.getElem?_singleton] at hu
      split at hu
      · -- the last local holds the unit value
        injection hu with hu
        exact absurd hu.symm hne
      · cases hu
  · intro name hname
    obtain ⟨l, hl, heq⟩ := ht.names name hname
    exact ⟨l, by rw [List.length_append]; exact Nat.lt_add_right 1 hl, heq⟩

end Tracks

/-! ## Operands -/

section

variable {frame : Frame} {h : Heap} {e : Expr} {es : List Expr} {v : Value}

theorem evalAll_nil : evalAll frame [] h = .ok [] h := rfl

theorem evalAll_of_eval {vs : List Value} (he : eval frame e h = .ok v h)
    (hes : evalAll frame es h = .ok vs h) : evalAll frame (e :: es) h = .ok (v :: vs) h := by
  rw [evalAll_cons, bind_of_ok he, bind_of_ok hes]
  rfl

/-- The first argument that throws ends the evaluation, -/
theorem throws_evalAll_head (he : Throws (eval frame e) h) (es : List Expr) :
    Throws (evalAll frame (e :: es)) h := by
  rw [evalAll_cons]
  exact he.bind _

/-- after those before it. -/
theorem throws_evalAll_tail (he : eval frame e h = .ok v h) (hes : Throws (evalAll frame es) h) :
    Throws (evalAll frame (e :: es)) h := by
  rw [evalAll_cons]
  exact Throws.after he (hes.bind _)

end

section

variable {nans : NaNs} {types bound : List Erased.Ty} {env : Env} {frame : Frame} {s : Store}
  {h : Heap}
  (ht : Tracks nans bound env frame s h) (hdeclared : bound <+: types)

include ht hdeclared

/-- The expression of a local has the value that is bound to it. -/
theorem eval_localExpr {l : Local} {v : Erased.Value} (hv : env[l]? = some v) :
    ∃ w, eval frame (localExpr types l) h = .ok w h ∧ Stands nans h v w := by
  obtain ⟨t, htype, hhead⟩ : ∃ t, types[l]? = some t ∧ t.head = v.head := by
    obtain ⟨t, hbound, hhead⟩ := exists_of_map_eq_map ht.heads hv
    obtain ⟨hl, hget⟩ := List.getElem?_eq_some_iff.mp hbound
    exact ⟨t, by rw [List.prefix_iff_getElem?.mp hdeclared l hl, hget], hhead⟩
  rw [localExpr, htype]
  -- The unit value has no variable, and is written as `null` wherever it is read.
  by_cases hunit : v = .unit
  · subst hunit
    have ht' : t = .unit := Erased.Ty.eq_unit_of_head hhead
    rw [if_pos (by rw [ht'])]
    exact ⟨.null, rfl, trivial⟩
  · have ht' : t ≠ .unit := by
      rintro rfl
      exact hunit (Erased.Value.eq_unit_of_head hhead.symm)
    obtain ⟨w, hw, hstands⟩ := ht.vars l v hv hunit
    rw [if_neg (by simpa using ht'), eval_name frame hw]
    exact ⟨w, rfl, hstands⟩

/-- A local of integer type is a `long` variable. -/
theorem eval_integer {l : Local} {n : Int64} (hn : env.integer l = .ok n) :
    eval frame (localExpr types l) h = .ok (.scalar (.long n)) h := by
  obtain ⟨w, hw, hstands⟩ := eval_localExpr ht hdeclared (Env.integer_eq_ok.mp hn)
  cases w with
  | scalar x =>
    rw [hw]
    exact congrArg (EStateM.Result.ok · h) (congrArg Value.scalar hstands)
  | _ => cases hstands

/-- A primitive local is a variable with the same scalar in it. -/
theorem eval_prim {l : Local} {p : Prim} (hp : env.prim l = .ok p) :
    ∃ x, nans.scalar? p = some x ∧ eval frame (localExpr types l) h = .ok (.scalar x) h := by
  obtain ⟨w, hw, hstands⟩ := eval_localExpr ht hdeclared (Env.prim_eq_ok.mp hp)
  cases w with
  | scalar x => exact ⟨x, hstands, hw⟩
  | _ => cases hstands

/-- A local of array type refers to the array at the same place. -/
theorem eval_array {k : Kind} {l : Local} {a : ArrayRef} (ha : env.array k l = .ok a) :
    eval frame (localExpr types l) h = .ok (.array a.place) h ∧ h.kind? a.place = some a.kind := by
  obtain ⟨w, hw, hstands⟩ := eval_localExpr ht hdeclared (Env.array_eq_ok.mp ha).1
  cases w with
  | array i =>
    obtain ⟨rfl, hkind⟩ := hstands
    exact ⟨hw, hkind⟩
  | _ => cases hstands

/-- The items of a tuple, each by itself. -/
theorem evalAll_items {items : List Local} {vs : List Erased.Value}
    (hvs : items.mapM env.value = .ok vs) :
    ∃ ws, evalAll frame (items.map (localExpr types)) h = .ok ws h ∧ StandAll nans h vs ws := by
  -- one item after another
  have hitems := Erased.mapM_value_eq_ok.mp hvs
  clear hvs
  induction hitems with
  | nil => exact ⟨[], evalAll_nil, trivial⟩
  | cons hv _ ih =>
    obtain ⟨w, hw, hstands⟩ := eval_localExpr ht hdeclared hv
    obtain ⟨ws, hws, hall⟩ := ih
    exact ⟨w :: ws, evalAll_of_eval hw hws, hstands, hall⟩

end

/-! ## Narrowed operands -/

section

variable {nans : NaNs} {types bound : List Erased.Ty} {env : Env} {frame : Frame} {s : Store}
  {h : Heap}
  {α : Type} {e : Expr} {n : Int64}

/-- Whether the value of an expression is that of a `long` narrowed to `int`. -/
def Narrows (frame : Frame) (h : Heap) (e : Expr) (n : Int64) : Prop :=
  eval frame e h = (toIntExact n >>= fun i => pure (.scalar (.int i))) h

namespace Narrows

theorem eval_of_fits (hn : Narrows frame h e n) (hfits : FitsInt n) :
    eval frame e h = .ok (.scalar (.int n.toInt32)) h :=
  Eq.trans hn (bind_of_ok (toIntExact_apply hfits))

theorem throws (hn : Narrows frame h e n) (hfits : ¬ FitsInt n) : Throws (eval frame e) h := by
  obtain ⟨exception, h', hthrows⟩ := (throws_toIntExact (h := h) hfits).bind
    fun i => (pure (Value.scalar (.int i)) : Exec Value)
  exact ⟨exception, h', Eq.trans hn hthrows⟩

/-- An operand is narrowed before it is used. -/
theorem bind_eq (hn : Narrows frame h e n) (f : Int32 → Exec α) :
    (eval frame e >>= fun v => asInt v >>= f) h = (toIntExact n >>= f) h := by
  -- either both go on with the `int`, or both throw before
  by_cases hfits : FitsInt n
  · rw [bind_of_ok (hn.eval_of_fits hfits), bind_of_ok (toIntExact_apply hfits)]
    rfl
  · obtain ⟨exception, h', hthrows⟩ := throws_toIntExact (h := h) hfits
    rw [bind_of_error (Eq.trans hn (bind_of_error hthrows)), bind_of_error hthrows]

end Narrows

variable (ht : Tracks nans bound env frame s h)

include ht

/-- The conversion narrows the number or throws. -/
theorem narrows_toInt (he : eval frame e h = .ok (.scalar (.long n)) h) :
    Narrows frame h (toInt e) n := by
  have hargs : evalAll frame [e] h = .ok [.scalar (.long n)] h := evalAll_of_eval he evalAll_nil
  rw [Narrows, toInt, eval_callOn, bind_of_ok hargs, ht.call_eq (by decide),
    callStatic_toIntExact]
  by_cases hfits : FitsInt n
  · have hcall : (toIntExact n >>= fun i => pure (some (Value.scalar (.int i)))) h =
        .ok (some (.scalar (.int n.toInt32))) h := bind_of_ok (toIntExact_apply hfits)
    rw [bind_of_ok hcall, bind_of_ok (toIntExact_apply hfits)]
    rfl
  · obtain ⟨exception, h', hthrows⟩ := throws_toIntExact (h := h) hfits
    rw [bind_of_error (bind_of_error hthrows), bind_of_error hthrows]

variable (hdeclared : bound <+: types)

include hdeclared

theorem narrows_index {l : Local} (hn : env.integer l = .ok n) :
    Narrows frame h (indexExpr types l) n :=
  narrows_toInt ht (eval_integer ht hdeclared hn)

/-- A constant that fits is written as an `int`; any other is converted, and throws. -/
theorem narrows_operand {o : Operand} (hn : env.offset o = .ok n) :
    Narrows frame h (operandExpr types o) n := by
  cases o with
  | read l => exact narrows_index ht hdeclared hn
  | const c =>
    -- a constant that fits is an `int` literal
    injection hn with hn
    subst hn
    rw [operandExpr, intExpr]
    split
    · rename_i hfits
      rw [Narrows, bind_of_ok (toIntExact_apply hfits)]
      rfl
    · exact narrows_toInt ht rfl

/-! ### Lengths -/

/-- The length of an array fits, since Java arrays are no longer. -/
theorem eval_lengthExpr {k : Kind} {l : Local} {a : ArrayRef} (ha : env.array k l = .ok a) :
    eval frame (lengthExpr types l) h = .ok (.scalar (.int (Int32.ofNat (s.length a)))) h := by
  obtain ⟨harray, hkind⟩ := eval_array ht hdeclared ha
  rw [lengthExpr, eval_field, bind_of_ok harray]
  exact length_agrees ht.agrees hkind

/-- What remains behind an offset, by a subtraction that may wrap. -/
theorem eval_remainingExpr {k : Kind} {l : Local} {a : ArrayRef} {o : Operand}
    (ha : env.array k l = .ok a) (hn : env.offset o = .ok n) (hfits : FitsInt n) :
    eval frame (remainingExpr types l o) h =
      .ok (.scalar (.int (Int32.ofNat (s.length a) - n.toInt32))) h := by
  have hlength := eval_lengthExpr ht hdeclared ha
  rw [remainingExpr]
  split
  · -- nothing is subtracted where the offset is the constant zero
    rename_i hzero
    subst hzero
    injection hn with hn
    subst hn
    rw [hlength]
    simp
  · have hoffset := (narrows_operand ht hdeclared hn).eval_of_fits hfits
    rw [eval_minus, bind_of_ok hlength]
    show (eval frame (operandExpr types o) >>= _) h = _
    rw [bind_of_ok hoffset]
    rfl

/-- The length of a copy is the one that is given, or the smaller of what remains of both arrays. -/
theorem eval_copyLengthExpr {k : Kind} {source destination : Local} {a d : ArrayRef}
    {sourceOffset destinationOffset : Operand} {i j : Int64} {copyLength : CopyLength}
    {length : Option Int64} (ha : env.array k source = .ok a)
    (hd : env.array k destination = .ok d) (hi : env.offset sourceOffset = .ok i)
    (hj : env.offset destinationOffset = .ok j) (hlength : env.copyLength copyLength = .ok length)
    (hifits : FitsInt i) (hjfits : FitsInt j) (hfits : ∀ c ∈ length, FitsInt c) :
    eval frame (copyLengthExpr types source sourceOffset destination destinationOffset
        copyLength) h =
      .ok (.scalar (.int (intCount (s.length a) (s.length d) i.toInt32 j.toInt32 length))) h := by
  cases copyLength with
  | explicit o =>
    cases hc : env.offset o with
    | error error =>
      rw [Env.copyLength, hc] at hlength
      cases hlength
    | ok c =>
      rw [Env.copyLength, hc] at hlength
      injection hlength with hlength
      subst hlength
      exact (narrows_operand ht hdeclared hc).eval_of_fits (hfits c rfl)
  | remaining =>
    -- the smaller of two differences, which Java computes as `int` numbers
    injection hlength with hlength
    subst hlength
    have hargs : evalAll frame [remainingExpr types source sourceOffset,
        remainingExpr types destination destinationOffset] h =
        .ok [.scalar (.int (Int32.ofNat (s.length a) - i.toInt32)),
          .scalar (.int (Int32.ofNat (s.length d) - j.toInt32))] h :=
      evalAll_of_eval (eval_remainingExpr ht hdeclared ha hi hifits)
        (evalAll_of_eval (eval_remainingExpr ht hdeclared hd hj hjfits) evalAll_nil)
    rw [copyLengthExpr, eval_callOn, bind_of_ok hargs, ht.call_eq (by decide),
      callStatic_min]
    rfl

/-- Only a length that is given is narrowed. -/
theorem throws_copyLengthExpr {source destination : Local}
    {sourceOffset destinationOffset : Operand} {copyLength : CopyLength} {length : Option Int64}
    (hlength : env.copyLength copyLength = .ok length) {c : Int64} (hc : c ∈ length)
    (hfits : ¬ FitsInt c) :
    Throws (eval frame (copyLengthExpr types source sourceOffset destination destinationOffset
      copyLength)) h := by
  cases copyLength with
  | explicit o =>
    cases ho : env.offset o with
    | error error =>
      rw [Env.copyLength, ho] at hlength
      cases hlength
    | ok c' =>
      rw [Env.copyLength, ho] at hlength
      injection hlength with hlength
      subst hlength
      cases hc
      exact (narrows_operand ht hdeclared ho).throws hfits
  | remaining =>
    -- no length is given that could fail to fit
    injection hlength with hlength
    subst hlength
    cases hc

end

end ArrayBridge.Java
