import ArrayBridge.Proofs.Java.Operands

/-!
# Programs against their Java methods

A program on native arrays and the method that is emitted for it are run side by side, one binding
at a time. In values and arrays the two differ in the bits of NaNs at most: a literal that is a NaN
is written as the constant of its class.

Main results:

* `Tracks.follows` — the statements of one binding do what the binding does.
* `exec_bodyStmts` — the statements of all bindings, by induction on the bindings.
* `endsAs_of_toMethod` — a method returns what its program returns, NaNs as the constants of their
  classes, and throws exactly when the program fails.
-/

namespace ArrayBridge.Java

open ArrayBridge.Action (bind_of_ok bind_of_error mapError_of_ok mapError_of_error)
open ArrayBridge.Erased (Binding CopyLength EachBinding Env Operand Role RunError evalBindings)

/-! ## Declared types -/

/-- The Java type of the values of a form; object types differ and are left out. -/
def Ty.ofHead? : Erased.Head → Option Ty
  | .integer => some integerType
  | .prim k => some (.prim k)
  | .array k => some (arrayType k)
  | .descriptor => some descriptorType
  | .tuple => some (.array objectType)
  | .unit | .object => none

/-- The type of a local in Java is decided by the outermost form of its type. -/
theorem Ty.ofErased?_eq {type : Erased.Ty} {form : Erased.Head} (hhead : type.head = form)
    (hobject : form ≠ .object) : Ty.ofErased? type = Ty.ofHead? form := by
  subst hhead
  cases type with
  | object d => exact absurd rfl hobject
  | _ => rfl

/-- A variable of the declared type holds the value as it is. -/
theorem convert_of_stands {nans : NaNs} {h : Heap} {v : Erased.Value} {w : Value}
    {type : Erased.Ty} {t : Ty} (hstands : Stands nans h v w) (hhead : type.head = v.head)
    (htype : Ty.ofErased? type = some t) :
    convert t w h = .ok w h := by
  cases v with
  | unit => cases (Ty.ofErased?_eq hhead (by simp [Erased.Value.head])).symm.trans htype
  | integer n =>
    cases (Ty.ofErased?_eq hhead (by simp [Erased.Value.head])).symm.trans htype
    cases w with
    | scalar x => exact hstands ▸ rfl
    | _ => cases hstands
  | prim p =>
    cases (Ty.ofErased?_eq hhead (by simp [Erased.Value.head])).symm.trans htype
    cases w with
    | scalar x =>
      -- a `long` stays one, and nothing else is widened
      have hkind : x.kind = p.kind := NaNs.kind_of_scalar? hstands
      rw [← hkind]
      cases x <;> rfl
    | _ => cases hstands
  | array a =>
    cases (Ty.ofErased?_eq hhead (by simp [Erased.Value.head])).symm.trans htype
    cases w with
    | array i =>
      obtain ⟨-, hkind⟩ := hstands
      obtain ⟨cell, hcell, hkind⟩ := Option.map_eq_some_iff.mp hkind
      show (if h.arrays[i]?.map (Ty.prim ·.kind) = some (.prim a.kind) then pure (Value.array i)
        else stuck : Exec Value) h = _
      rw [if_pos (by rw [hcell, ← hkind]; rfl)]
      rfl
    | _ => cases hstands
  | tuple vs =>
    cases (Ty.ofErased?_eq hhead (by simp [Erased.Value.head])).symm.trans htype
    cases w with
    | objects i => rfl
    | _ => cases hstands
  | _ => cases w <;> cases hstands

/-- A value that stands in Java for one that is not unit has a type there. -/
theorem exists_type_of_stands {nans : NaNs} {h : Heap} {v : Erased.Value} {w : Value}
    {type : Erased.Ty} (hstands : Stands nans h v w) (hne : v ≠ .unit)
    (hhead : type.head = v.head) :
    ∃ t, Ty.ofErased? type = some t := by
  cases v with
  | unit => exact absurd rfl hne
  | sequence q => cases w <;> cases hstands
  | boxed b => cases w <;> cases hstands
  | _ => exact ⟨_, Ty.ofErased?_eq hhead (by simp [Erased.Value.head])⟩

/-! ## Statements of a binding -/

section

variable (nans : NaNs) (result : Option Ty) {types bound : List Erased.Ty} {type : Erased.Ty}
  {env : Env} {frame : Frame} {s s' : Store} {h h' : Heap}

/-- Whether the statements of a binding do what the binding does: where it ends with a value, they
lead to a state that tracks it, and where it fails, they throw. -/
def Follows (bound : List Erased.Ty) (env : Env) (frame : Frame) (h : Heap) (type : Erased.Ty)
    (stmts : List Stmt) : EStateM.Result RunError Store Erased.Value → Prop
  | .ok v s' => ∃ frame' h', (∀ rest,
      exec result frame (stmts ++ rest) h = exec result frame' rest h') ∧
      Tracks nans (bound ++ [type]) (env ++ [v]) frame' s' h'
  | .error _ _ => ∀ rest, Throws (exec result frame (stmts ++ rest)) h

variable {nans} {result} (ht : Tracks nans bound env frame s h)

include ht

/-! ### Values -/

/-- A declaration follows its binding if its value does, converted to the declared type. -/
theorem follows_of_evalAs {t : Ty} {value : Expr} {v : Erased.Value} {w : Value}
    (htype : Ty.ofErased? type = some t) (hhead : type.head = v.head)
    (hvalue : evalAs frame t value h = .ok w h') (hstands : Stands nans h' v w)
    (hext : h.Extends h') (hagrees : Agrees nans s' h') :
    Follows nans result bound env frame h type (declareStmts env.length type value) (.ok v s') := by
  refine ⟨Function.update frame (localName env.length) (some w), h', fun rest => ?_,
    (ht.mono hext hagrees).bind hhead.symm hstands⟩
  rw [declareStmts, htype]
  show exec result frame (.declare ⟨true, localName env.length, t, value⟩ :: rest) h = _
  rw [exec_declare _ _ _ ht.free, bind_of_ok hvalue]

/-- A declaration whose value needs no conversion. -/
theorem follows_of_eval {t : Ty} {value : Expr} {v : Erased.Value} {w : Value}
    (htype : Ty.ofErased? type = some t) (hhead : type.head = v.head)
    (hvalue : eval frame value h = .ok w h') (hstands : Stands nans h' v w) (hext : h.Extends h')
    (hagrees : Agrees nans s' h') :
    Follows nans result bound env frame h type (declareStmts env.length type value) (.ok v s') := by
  refine follows_of_evalAs ht htype hhead ?_ hstands hext hagrees
  rw [evalAs, bind_of_ok hvalue]
  exact convert_of_stands hstands hhead htype

/-- A declaration whose value throws has not been made. -/
theorem follows_of_throws {t : Ty} {value : Expr} {error : RunError}
    (htype : Ty.ofErased? type = some t) (hvalue : Throws (eval frame value) h) :
    Follows nans result bound env frame h type (declareStmts env.length type value)
      (.error error s') := by
  intro rest
  rw [declareStmts, htype]
  show Throws (exec result frame (.declare ⟨true, localName env.length, t, value⟩ :: rest)) h
  rw [exec_declare _ _ _ ht.free]
  exact (hvalue.bind _).bind _

/-! ### Effects -/

omit ht in
/-- In the place of a unit local stands the bare expression, if it does anything. -/
theorem exec_effect {l : Local} {value : Expr} (htype : type.head = .unit)
    (heffect : value.hasEffect = true) (rest : List Stmt) :
    exec result frame (declareStmts l type value ++ rest) h =
      (perform frame value >>= fun _ => exec result frame rest) h := by
  rw [Erased.Ty.eq_unit_of_head htype, declareStmts]
  show exec result frame ((if value.hasEffect = true then [.eval value] else []) ++ rest) h = _
  rw [if_pos heffect, List.singleton_append, exec_eval]

/-- An expression statement follows its unit binding. -/
theorem follows_of_perform {value : Expr} (htype : type.head = .unit)
    (heffect : value.hasEffect = true) (hvalue : perform frame value h = .ok () h')
    (hext : h.Extends h') (hagrees : Agrees nans s' h') :
    Follows nans result bound env frame h type (declareStmts env.length type value)
      (.ok .unit s') := by
  refine ⟨frame, h', fun rest => ?_, (ht.mono hext hagrees).bindUnit htype⟩
  rw [exec_effect htype heffect, bind_of_ok hvalue]

omit ht in
/-- An expression statement that throws. -/
theorem follows_of_perform_throws {value : Expr} {error : RunError} (htype : type.head = .unit)
    (heffect : value.hasEffect = true) (hvalue : Throws (perform frame value) h) :
    Follows nans result bound env frame h type (declareStmts env.length type value)
      (.error error s') := by
  intro rest
  obtain ⟨exception, h', hthrows⟩ := hvalue.bind fun _ => exec result frame rest
  exact ⟨exception, h', (exec_effect htype heffect rest).trans hthrows⟩

end

/-! ## Calls of the class library -/

section

variable {frame : Frame} {h h' : Heap} {className method : String} {args : List Expr}
  {vs : List Value}

theorem perform_of_call {r : Option Value} (hargs : evalAll frame args h = .ok vs h)
    (hcall : frame.call className method vs h = .ok r h') :
    perform frame (.callOn className method args) h = .ok () h' := by
  rw [perform_callOn, bind_of_ok hargs, bind_of_ok hcall]
  rfl

/-- Arguments are evaluated before the call, and the first that throws ends it. -/
theorem throws_perform_args (hargs : Throws (evalAll frame args) h) :
    Throws (perform frame (.callOn className method args)) h := by
  rw [perform_callOn]
  exact hargs.bind _

theorem throws_perform_call (hargs : evalAll frame args h = .ok vs h)
    (hcall : Throws (frame.call className method vs) h) :
    Throws (perform frame (.callOn className method args)) h := by
  rw [perform_callOn]
  exact Throws.after hargs (hcall.bind _)

end

/-! ## Literals -/

/-- The literal of a primitive value has that value, where a NaN is the constant of its class; a
character that is emitted is a unit of UTF-16. -/
theorem eval_primExpr {l : Local} {p : Prim} {e : Expr} (he : primExpr l p = .ok e)
    (frame : Frame) (h : Heap) :
    ∃ x, p.plain.scalar? = some x ∧ eval frame e h = .ok (.scalar x) h := by
  cases p with
  | char c =>
    rw [primExpr, charExpr] at he
    split at he
    · rename_i hc
      injection he with he
      subst he
      refine ⟨.char (UInt16.ofNat c.toNat), ?_, rfl⟩
      show Prim.scalar? (.char c) = _
      rw [Prim.scalar?, if_pos hc]
    · cases he
  | short n =>
    -- written as an `int` with a cast, which gives the number back
    injection he with he
    subst he
    refine ⟨.short n, rfl, ?_⟩
    have hnarrow : n.toInt32.toInt16 = n := by simp
    show EStateM.Result.ok (Value.scalar (.short n.toInt32.toInt16)) h = _
    rw [hnarrow]
  | byte n =>
    injection he with he
    subst he
    refine ⟨.byte n, rfl, ?_⟩
    have hnarrow : n.toInt32.toInt8 = n := by simp
    show EStateM.Result.ok (Value.scalar (.byte n.toInt32.toInt8)) h = _
    rw [hnarrow]
  | _ =>
    injection he with he
    subst he
    exact ⟨_, rfl, rfl⟩

/-- Whether a literal that a binding has shows as what is written for it. Where NaNs keep their
bits, it does unless it is a NaN with other bits than those of its class. -/
def NaNs.ShowsLiteral (nans : NaNs) (b : Binding) : Prop :=
  ∀ p, b.expr = .primLit p → nans.shown p = p.plain

/-- Up to the bits of NaNs, every literal shows its number. -/
theorem NaNs.showsLiteral_plain (b : Binding) : NaNs.plain.ShowsLiteral b := fun _ _ => rfl

/-! ## Bindings, one form of expression at a time -/

section

variable {nans : NaNs} {result : Option Ty} {types bound : List Erased.Ty} {type : Erased.Ty}
  {env : Env} {frame : Frame} {s : Store} {h : Heap} (ht : Tracks nans bound env frame s h)

include ht

theorem follows_intLit (htype : type.head = .integer) (n : Int64) :
    Follows nans result bound env frame h type (declareStmts env.length type (.longLit n))
      ((Erased.Expr.intLit n).eval env s) := by
  have hstands : Stands nans h (.integer n) (.scalar (.long n)) := rfl
  exact follows_of_eval ht (Ty.ofErased?_eq htype (by simp)) htype rfl hstands
    (.refl h) ht.agrees

/-- A literal has the number it shows, which for a NaN is Java's own. -/
theorem follows_primLit {p : Prim} {e : Expr} (htype : type.head = .prim p.kind)
    (hshown : nans.shown p = p.plain) (he : primExpr env.length p = .ok e) :
    Follows nans result bound env frame h type (declareStmts env.length type e)
      ((Erased.Expr.primLit p).eval env s) := by
  obtain ⟨x, hx, heval⟩ := eval_primExpr he frame h
  have hstands : Stands nans h (.prim p) (.scalar x) := (congrArg Prim.scalar? hshown).trans hx
  exact follows_of_eval ht (Ty.ofErased?_eq htype (by simp)) htype heval hstands (.refl h)
    ht.agrees

variable (hdeclared : bound <+: types)

include hdeclared

/-- A unit local is not there to be read, so its binding leaves no statement. -/
theorem follows_var {l : Local} {v : Erased.Value} (hv : env[l]? = some v)
    (htype : type.head = v.head) :
    Follows nans result bound env frame h type
      (if type = .unit then [] else declareStmts env.length type (localExpr types l))
      ((Erased.Expr.var l).eval env s) := by
  rw [(Erased.Expr.Evaluates.var hv).eval_eq]
  by_cases hunit : type = .unit
  · -- the value is dropped, and so is the variable
    have hv' : v = .unit := Erased.Value.eq_unit_of_head (htype ▸ hunit ▸ rfl)
    subst hv'
    rw [if_pos hunit]
    exact ⟨frame, h, fun _ => rfl, ht.bindUnit htype⟩
  · have hv' : v ≠ .unit := by
      rintro rfl
      exact hunit (Erased.Ty.eq_unit_of_head htype)
    obtain ⟨w, hw, hstands⟩ := eval_localExpr ht hdeclared hv
    obtain ⟨t, ht'⟩ := exists_type_of_stands hstands hv' htype
    rw [if_neg hunit]
    exact follows_of_eval ht ht' htype hw hstands (.refl h) ht.agrees

/-- Items of a tuple are objects: unit is null in them, and numbers are boxed. -/
theorem follows_tuple {items : List Local} {vs : List Erased.Value}
    (hvs : items.mapM env.value = .ok vs) (htype : type.head = .tuple) :
    Follows nans result bound env frame h type
      (declareStmts env.length type (.arrayInit objectType (items.map (localExpr types))))
      ((Erased.Expr.tuple items).eval env s) := by
  rw [(Erased.Expr.Evaluates.tuple (Erased.mapM_value_eq_ok.mp hvs)).eval_eq]
  obtain ⟨ws, hws, hall⟩ := evalAll_items ht hdeclared hvs
  have hext : h.Extends (h.addObjects ws) := .addObjects h ws
  have hstands : Stands nans (h.addObjects ws) (.tuple vs) (.objects h.objects.length) := by
    refine ⟨ws, ?_, hall.extends hext⟩
    rw [Heap.addObjects, List.getElem?_concat_length]
  refine follows_of_eval ht (Ty.ofErased?_eq htype (by simp)) htype ?_ hstands hext
    (ht.agrees.addObjects ws)
  rw [eval_arrayInit, bind_of_ok hws, newObjects, if_pos rfl]
  rfl

/-- Sizes out of range: those that are no `int` fail in the conversion, negative ones in the
allocation. -/
theorem follows_newArray {k : Kind} {size : Local} {n : Int64} (hn : env.integer size = .ok n)
    (htype : type.head = .array k) :
    Follows nans result bound env frame h type
      (declareStmts env.length type (.newArray (.prim k) (indexExpr types size)))
      ((Erased.Expr.newArray k size).eval env s) := by
  have hsize := (narrows_index ht hdeclared hn).bind_eq (newArray (.prim k))
  have heval : eval frame (.newArray (.prim k) (indexExpr types size)) h =
      (toIntExact n >>= newArray (.prim k)) h := by
    rw [eval_newArray, hsize]
  have htype' : Ty.ofErased? type = some (arrayType k) := Ty.ofErased?_eq htype (by simp)
  simp only [Erased.Expr.eval, hn, Action.lift_ok, Action.pure_bind_apply]
  -- in range both make the array, out of range both fail
  by_cases hrange : 0 ≤ n.toInt ∧ n.toInt ≤ maxLength
  · obtain ⟨h', hnew, hkind, hext, hagrees⟩ := newArray_agrees ht.agrees k hrange.1 hrange.2
    have hstore := ArrayRef.new_of_le s k none (by simp) hrange.1 hrange.2
    have hstands : Stands nans h' (.array ⟨k, s.arrays.size⟩) (.array s.arrays.size) := ⟨rfl, hkind⟩
    rw [bind_of_ok (mapError_of_ok hstore)]
    exact follows_of_eval ht htype' htype (heval.trans hnew) hstands hext hagrees
  · obtain ⟨fault, hstore⟩ := ArrayRef.new_of_not_le s k none (by simp) hrange
    obtain ⟨exception, h', hthrows⟩ := throws_newArray (h := h) k hrange
    rw [bind_of_error (mapError_of_error hstore)]
    exact follows_of_throws ht htype' ⟨exception, h', heval.trans hthrows⟩

/-- An array that is filled is made as in `follows_newArray`, declared, and then filled in place.
The array is new, so nothing else sees it half filled. -/
theorem follows_fillArray (hlast : bound ++ [type] <+: types) {k : Kind} {size element : Local}
    {n : Int64} {p : Prim} (hn : env.integer size = .ok n) (hp : env.prim element = .ok p)
    (hkind : p.kind = k) (htype : type.head = .array k) :
    Follows nans result bound env frame h type
      (declareStmts env.length type (.newArray (.prim k) (indexExpr types size)) ++
        [.eval (.callOn "java.util.Arrays" "fill"
          [localExpr types env.length, localExpr types element])])
      ((Erased.Expr.fillArray k size element).eval env s) := by
  have hpk : ∀ q ∈ some p, q.kind = k := by simpa using hkind
  have hfresh : Follows nans result bound env frame h type _ _ :=
    follows_newArray ht hdeclared hn htype
  simp only [Erased.Expr.eval, hn, hp, Action.lift_ok, Action.pure_bind_apply] at hfresh ⊢
  by_cases hrange : 0 ≤ n.toInt ∧ n.toInt ≤ maxLength
  · have hzeros := ArrayRef.new_of_le s k none (by simp) hrange.1 hrange.2
    have hcopies := ArrayRef.new_of_le s k (some p) hpk hrange.1 hrange.2
    rw [bind_of_ok (mapError_of_ok hzeros)] at hfresh
    rw [bind_of_ok (mapError_of_ok hcopies)]
    -- the variable holds an array of zeros, which is then filled
    obtain ⟨frame', h', hexec, ht'⟩ := hfresh
    have hlocal : (env ++ [.array ⟨k, s.arrays.size⟩])[env.length]? =
        some (.array ⟨k, s.arrays.size⟩) := List.getElem?_concat_length
    have helement : Env.prim (env ++ [.array ⟨k, s.arrays.size⟩]) element = .ok p := by
      rw [Env.prim_eq_ok] at hp ⊢
      exact getElem?_append_of_eq_some hp
    obtain ⟨harray, hkind'⟩ := eval_array ht' hlast (Env.array_eq_ok.mpr ⟨hlocal, rfl⟩)
    obtain ⟨x, hx, hvalue⟩ := eval_prim ht' hlast helement
    obtain ⟨h'', hfill, hext, hagrees⟩ := fill_agrees ht'.agrees hkind' hkind hx
    refine ⟨frame', h'', fun rest => ?_, ht'.mono hext hagrees⟩
    have hperform : perform frame' (.callOn "java.util.Arrays" "fill"
        [localExpr types env.length, localExpr types element]) h' = .ok () h'' := by
      have hargs := evalAll_of_eval harray (evalAll_of_eval hvalue evalAll_nil)
      refine perform_of_call (r := none) hargs ?_
      rw [ht'.call_eq (by decide), callStatic_fill, bind_of_ok hfill]
      rfl
    rw [List.append_assoc, hexec, List.singleton_append, exec_eval, bind_of_ok hperform]
  · -- neither array is made
    obtain ⟨fault, hzeros⟩ :=
      ArrayRef.new_of_not_le s k none (by simp) hrange
    obtain ⟨fault', hcopies⟩ := ArrayRef.new_of_not_le s k (some p) hpk hrange
    rw [bind_of_error (mapError_of_error hzeros)] at hfresh
    rw [bind_of_error (mapError_of_error hcopies)]
    intro rest
    rw [List.append_assoc]
    exact hfresh _

/-- An index that is no `int` is out of range of every array. -/
theorem follows_load {k : Kind} {array index : Local} {a : ArrayRef} {n : Int64}
    (ha : env.array k array = .ok a) (hn : env.integer index = .ok n)
    (htype : type.head = .prim a.kind) :
    Follows nans result bound env frame h type
      (declareStmts env.length type (.access (localExpr types array) (indexExpr types index)))
      ((Erased.Expr.load k array index).eval env s) := by
  obtain ⟨harray, hkind⟩ := eval_array ht hdeclared ha
  have hindex := (narrows_index ht hdeclared hn).bind_eq (load (.array a.place))
  have heval : eval frame (.access (localExpr types array) (indexExpr types index)) h =
      (toIntExact n >>= load (.array a.place)) h := by
    rw [eval_access, bind_of_ok harray, hindex]
  have htype' : Ty.ofErased? type = some (.prim a.kind) := Ty.ofErased?_eq htype (by simp)
  simp only [Erased.Expr.eval, ha, hn, Action.lift_ok, Action.pure_bind_apply]
  have hget := ArrayRef.get_apply s a n
  -- an index out of range fails on both sides, whether it fits an `int` or not
  by_cases hrange : 0 ≤ n.toInt ∧ n.toInt < s.length a
  · obtain ⟨x, hx, hload⟩ := load_agrees ht.agrees hkind hrange
    have hstands : Stands nans h (.prim (s.element a n.toInt.toNat)) (.scalar x) := hx
    rw [if_pos hrange] at hget
    rw [bind_of_ok (mapError_of_ok hget)]
    refine follows_of_eval ht htype' ?_ (heval.trans hload) hstands (.refl h) ht.agrees
    rw [htype]
    exact congrArg Erased.Head.prim (Kind.kind_ofSlot ..).symm
  · obtain ⟨exception, h', hthrows⟩ := throws_load ht.agrees hkind hrange
    rw [if_neg hrange] at hget
    rw [bind_of_error (mapError_of_error hget)]
    exact follows_of_throws ht htype' ⟨exception, h', heval.trans hthrows⟩

/-- The value is converted to the element type, which it has already. -/
theorem follows_store {k : Kind} {array index value : Local} {a : ArrayRef} {n : Int64} {p : Prim}
    (ha : env.array k array = .ok a) (hn : env.integer index = .ok n)
    (hp : env.prim value = .ok p) (hpk : p.kind = a.kind) (htype : type.head = .unit) :
    Follows nans result bound env frame h type
      (declareStmts env.length type
        (.assign (.access (localExpr types array) (indexExpr types index))
          (localExpr types value)))
      ((Erased.Expr.store k array index value).eval env s) := by
  obtain ⟨harray, hkind⟩ := eval_array ht hdeclared ha
  obtain ⟨x, hx, hvalue⟩ := eval_prim ht hdeclared hp
  have hindex := (narrows_index ht hdeclared hn).bind_eq fun i =>
    eval frame (localExpr types value) >>= store (.array a.place) i
  have heval : eval frame (.assign (.access (localExpr types array) (indexExpr types index))
      (localExpr types value)) h =
      (toIntExact n >>= fun i => store (.array a.place) i (.scalar x)) h := by
    rw [eval_assign, bind_of_ok harray, hindex]
    exact toIntExact_bind_congr fun i => bind_of_ok hvalue
  simp only [Erased.Expr.eval, ha, hn, hp, Action.lift_ok, Action.pure_bind_apply]
  have hset := ArrayRef.set_apply s a n p hpk
  -- the value is only written in range, and its evaluation changes nothing
  by_cases hrange : 0 ≤ n.toInt ∧ n.toInt < s.length a
  · obtain ⟨h', hstore, hext, hagrees⟩ := store_agrees ht.agrees hkind hpk hx hrange
    rw [if_pos hrange] at hset
    rw [bind_of_ok (mapError_of_ok hset)]
    refine follows_of_perform ht htype rfl ?_ hext hagrees
    rw [perform_assign, bind_of_ok (heval.trans hstore)]
    rfl
  · obtain ⟨exception, h', hthrows⟩ := throws_store (v := .scalar x) ht.agrees hkind hrange
    rw [if_neg hrange] at hset
    rw [bind_of_error (mapError_of_error hset)]
    refine follows_of_perform_throws htype rfl ⟨exception, h', ?_⟩
    rw [perform_assign, bind_of_error (heval.trans hthrows)]

/-- Lengths are of type `int` in Java, and `long` once they are declared. -/
theorem follows_arrayLength {k : Kind} {array : Local} {a : ArrayRef}
    (ha : env.array k array = .ok a) (htype : type.head = .integer) :
    Follows nans result bound env frame h type
      (declareStmts env.length type (lengthExpr types array))
      ((Erased.Expr.arrayLength k array).eval env s) := by
  obtain ⟨-, hkind⟩ := eval_array ht hdeclared ha
  have heval := eval_lengthExpr ht hdeclared ha
  have hlength := ht.agrees.length_le hkind
  simp only [Erased.Expr.eval, ha, Action.lift_ok, Action.pure_bind_apply,
    Action.view_bind_apply]
  have hstands : Stands nans h (.integer (Int64.ofNat (s.length a)))
      (.scalar (.long (Int64.ofNat (s.length a)))) := rfl
  -- the length is an `int`, which the variable widens
  refine follows_of_evalAs ht (Ty.ofErased?_eq htype (by simp)) htype ?_ hstands (.refl h)
    ht.agrees
  rw [evalAs, bind_of_ok heval]
  show EStateM.Result.ok (Value.scalar (.long (Int32.ofNat (s.length a)).toInt64)) h = _
  rw [toInt64_ofNat hlength]

/-- The operands of a copy are all narrowed before it starts. -/
theorem follows_arrayCopy {k : Kind} {source destination : Local} {a d : ArrayRef}
    {sourceOffset destinationOffset : Operand} {i j : Int64} {copyLength : CopyLength}
    {length : Option Int64} (ha : env.array k source = .ok a)
    (hd : env.array k destination = .ok d) (hi : env.offset sourceOffset = .ok i)
    (hj : env.offset destinationOffset = .ok j) (hlength : env.copyLength copyLength = .ok length)
    (htype : type.head = .unit) :
    Follows nans result bound env frame h type
      (declareStmts env.length type (.callOn "System" "arraycopy"
        [localExpr types source, operandExpr types sourceOffset, localExpr types destination,
          operandExpr types destinationOffset,
          copyLengthExpr types source sourceOffset destination destinationOffset copyLength]))
      ((Erased.Expr.arrayCopy k source sourceOffset destination destinationOffset
        copyLength).eval env s) := by
  obtain ⟨harray, hkind⟩ := eval_array ht hdeclared ha
  obtain ⟨harray', hkind'⟩ := eval_array ht hdeclared hd
  have hlengthA := ht.agrees.length_le hkind
  have hlengthD := ht.agrees.length_le hkind'
  have hsame : d.kind = a.kind := (Env.array_eq_ok.mp hd).2.trans (Env.array_eq_ok.mp ha).2.symm
  have hsource := narrows_operand ht hdeclared hi
  have hdestination := narrows_operand ht hdeclared hj
  have hcopy := ArrayRef.copyTo_apply s a d i j length hsame
  -- offsets and length are 64-bit numbers, which are narrowed before anything else
  simp only [Erased.Expr.eval, ha, hd, hi, hj, hlength, Action.lift_ok, Action.pure_bind_apply]
  by_cases hfits : FitsInt i ∧ FitsInt j ∧ ∀ c ∈ length, FitsInt c
  · -- every operand fits, and the range is checked on `int` operands
    obtain ⟨hifits, hjfits, hcfits⟩ := hfits
    have hcount := eval_copyLengthExpr ht hdeclared ha hd hi hj hlength hifits hjfits hcfits
    have hargs := evalAll_of_eval harray (evalAll_of_eval (hsource.eval_of_fits hifits)
      (evalAll_of_eval harray' (evalAll_of_eval (hdestination.eval_of_fits hjfits)
        (evalAll_of_eval hcount evalAll_nil))))
    rw [copyRange?_eq hlengthA hlengthD hifits hjfits hcfits] at hcopy
    dsimp only at hcopy
    -- here the two checks are one, and the count is the same
    by_cases hrange : Copyable (s.length a) (s.length d) i.toInt32 j.toInt32
        (intCount (s.length a) (s.length d) i.toInt32 j.toInt32 length)
    · obtain ⟨h', hmove, hext, hagrees⟩ :=
        arraycopy_agrees ht.agrees hkind hkind' hsame hrange
      rw [if_pos hrange] at hcopy
      rw [bind_of_ok (mapError_of_ok hcopy)]
      refine follows_of_perform ht htype rfl (perform_of_call (r := none) hargs ?_) hext hagrees
      rw [ht.call_eq (by decide), callStatic_arraycopy, bind_of_ok hmove]
      rfl
    · have hthrows := throws_arraycopy ht.agrees hkind hkind' hsame hrange
      rw [if_neg hrange] at hcopy
      rw [bind_of_error (mapError_of_error hcopy)]
      refine follows_of_perform_throws htype rfl (throws_perform_call hargs ?_)
      rw [ht.call_eq (by decide), callStatic_arraycopy]
      exact hthrows.bind _
  · -- the first operand that does not fit throws, and the range is refused
    simp only [not_and_or, not_forall, exists_prop] at hfits
    rw [copyRange?_eq_none hlengthA hlengthD hfits] at hcopy
    rw [bind_of_error (mapError_of_error hcopy)]
    refine follows_of_perform_throws htype rfl (throws_perform_args ?_)
    refine throws_evalAll_tail harray ?_
    -- arguments are evaluated from left to right
    by_cases hifits : FitsInt i
    · refine throws_evalAll_tail (hsource.eval_of_fits hifits) (throws_evalAll_tail harray' ?_)
      by_cases hjfits : FitsInt j
      · obtain ⟨c, hc, hcfits⟩ := (hfits.resolve_left (not_not.mpr hifits)).resolve_left
          (not_not.mpr hjfits)
        refine throws_evalAll_tail (hdestination.eval_of_fits hjfits) (throws_evalAll_head ?_ _)
        exact throws_copyLengthExpr ht hdeclared hlength hc hcfits
      · exact throws_evalAll_head (hdestination.throws hjfits) _
    · exact throws_evalAll_head (hsource.throws hifits) _

end

/-! ## Bindings -/

section

variable {nans : NaNs} {result : Option Ty} {types : List Erased.Ty} {env : Env} {frame : Frame}
  {s : Store} {h : Heap}

/-- The statements of a binding that does not always throw do what the binding does. -/
theorem Tracks.follows {bound : List Erased.Ty} {b : Binding} {stmts : List Stmt}
    (ht : Tracks nans bound env frame s h) (hlast : bound ++ [b.type] <+: types)
    (hnative : b.expr.IsNative) (hoperands : b.expr.OperandsTyped bound)
    (hfits : b.HeadFits bound) (hshown : nans.ShowsLiteral b) (hgoesOn : diverges b = false)
    (hstmts : bindingStmts types env.length b = .ok stmts) :
    Follows nans result bound env frame h b.type stmts (b.expr.eval env s) := by
  have hdeclared : bound <+: types := (List.prefix_append _ _).trans hlast
  -- every operand has a value of the form that its role admits
  have hplay := Erased.Expr.operandsPlay_of_operandsTyped hoperands ht.heads
  obtain ⟨type, e⟩ := b
  cases e with
  | var l =>
    obtain ⟨v, hv⟩ := (hplay .value l (by simp [Erased.Expr.operands])).value
    have hv := Env.value_eq_ok.mp hv
    have hhead : v.head = type.head :=
      Erased.head_of_eval hfits ht.heads (Erased.Expr.Evaluates.var (s := s) hv).eval_eq
    have hstmts := Except.ok.inj hstmts
    exact hstmts ▸ follows_var ht hdeclared hv hhead.symm
  | intLit n => exact Except.ok.inj hstmts ▸ follows_intLit ht (hfits _ rfl).symm n
  | primLit p =>
    have hstmts : (declareStmts env.length type <$> primExpr env.length p) = .ok stmts := hstmts
    cases he : primExpr env.length p with
    | error error =>
      rw [he] at hstmts
      cases hstmts
    | ok literal =>
      rw [he] at hstmts
      exact Except.ok.inj hstmts ▸ follows_primLit ht (hfits _ rfl).symm (hshown p rfl) he
  | tuple items =>
    obtain ⟨vs, hvs⟩ := Erased.exists_mapM_value fun l hl =>
      hplay .value l (by simpa [Erased.Expr.operands] using hl)
    have heval := (Erased.Expr.Evaluates.tuple (s := s) (Erased.mapM_value_eq_ok.mp hvs)).eval_eq
    have hhead : (Erased.Value.tuple vs).head = type.head :=
      Erased.head_of_eval hfits ht.heads heval
    exact Except.ok.inj hstmts ▸ follows_tuple ht hdeclared hvs hhead.symm
  | newArray k size =>
    obtain ⟨n, hn⟩ := (hplay .integer size (by simp [Erased.Expr.operands])).integer
    exact Except.ok.inj hstmts ▸ follows_newArray ht hdeclared hn (hfits _ rfl).symm
  | fillArray k size element =>
    obtain ⟨n, hn⟩ := (hplay .integer size (by simp [Erased.Expr.operands])).integer
    obtain ⟨p, hp, hpk⟩ := (hplay (.prim k) element (by simp [Erased.Expr.operands])).prim
    exact Except.ok.inj hstmts ▸
      follows_fillArray ht hdeclared hlast hn hp hpk (hfits _ rfl).symm
  | load k array index =>
    obtain ⟨a, ha, hak⟩ := (hplay (.array k) array (by simp [Erased.Expr.operands])).array
    obtain ⟨n, hn⟩ := (hplay .integer index (by simp [Erased.Expr.operands])).integer
    exact Except.ok.inj hstmts ▸ follows_load ht hdeclared ha hn (hak ▸ (hfits _ rfl).symm)
  | store k array index value =>
    obtain ⟨a, ha, hak⟩ := (hplay (.array k) array (by simp [Erased.Expr.operands])).array
    obtain ⟨n, hn⟩ := (hplay .integer index (by simp [Erased.Expr.operands])).integer
    obtain ⟨p, hp, hpk⟩ := (hplay (.prim k) value (by simp [Erased.Expr.operands])).prim
    exact Except.ok.inj hstmts ▸
      follows_store ht hdeclared ha hn hp (hpk.trans hak.symm) (hfits _ rfl).symm
  | arrayLength k array =>
    obtain ⟨a, ha, -⟩ := (hplay (.array k) array (by simp [Erased.Expr.operands])).array
    exact Except.ok.inj hstmts ▸ follows_arrayLength ht hdeclared ha (hfits _ rfl).symm
  | arrayCopy k source sourceOffset destination destinationOffset length =>
    obtain ⟨n, hn⟩ := Erased.exists_copyLength (n := length) fun role l hl =>
      hplay role l (by simp [Erased.Expr.operands, hl])
    obtain ⟨a, ha, -⟩ := (hplay (.array k) source (by simp [Erased.Expr.operands])).array
    obtain ⟨d, hd, -⟩ := (hplay (.array k) destination (by simp [Erased.Expr.operands])).array
    obtain ⟨i, hi⟩ := Erased.exists_offset (o := sourceOffset) fun role l hl =>
      hplay role l (by simp [Erased.Expr.operands, hl])
    obtain ⟨j, hj⟩ := Erased.exists_offset (o := destinationOffset) fun role l hl =>
      hplay role l (by simp [Erased.Expr.operands, hl])
    exact Except.ok.inj hstmts ▸ follows_arrayCopy ht hdeclared ha hd hi hj hn (hfits _ rfl).symm
  | invokeWrapper => cases hgoesOn
  | _ => cases hnative

/-- A wrapper member throws where the program fails, and nothing stands behind it. -/
theorem eval_of_diverges (env : Env) (s : Store) {b : Binding} (hdiverges : diverges b = true) :
    ∃ error, b.expr.eval env s = .error error s := by
  obtain ⟨type, e⟩ := b
  cases e with
  | invokeWrapper k op => exact ⟨_, rfl⟩
  | _ => cases hdiverges

/-- Statements of a binding that never returns end in a throw. -/
theorem throws_of_diverges {l : Local} {b : Binding} {stmts : List Stmt}
    (hdiverges : diverges b = true) (hstmts : bindingStmts types l b = .ok stmts) :
    Throws (exec result frame stmts) h := by
  obtain ⟨type, e⟩ := b
  cases e with
  | invokeWrapper k op =>
    have hstmts := Except.ok.inj hstmts
    subst hstmts
    exact throws_raise _
  | _ => cases hdiverges

/-! ## All bindings -/

/-- The statements of the bindings that are left. By induction on them: each binding keeps the
invariant, or throws where the program fails. -/
theorem exec_bodyStmts (result : Option Ty) {last stmts : List Stmt}
    (before : List Binding) {rest : List Binding}
    (htypes : types = (before ++ rest).map Binding.type) (hnative : ∀ b ∈ rest, b.expr.IsNative)
    (hoperands : EachBinding (fun bound b => b.expr.OperandsTyped bound) (before ++ rest))
    (hfits : EachBinding Binding.HeadFits (before ++ rest))
    (hshown : ∀ b ∈ rest, nans.ShowsLiteral b)
    (ht : Tracks nans (before.map Binding.type) env frame s h)
    (hstmts : bodyStmts types last env.length rest = .ok stmts) :
    match evalBindings env rest s with
    | .ok env' s' => ∃ frame' h', Tracks nans types env' frame' s' h' ∧
        exec result frame stmts h = exec result frame' last h'
    | .error _ _ => Throws (exec result frame stmts) h := by
  induction rest generalizing before env frame s h stmts with
  | nil =>
    have hstmts : last = stmts := Except.ok.inj hstmts
    subst hstmts
    rw [List.append_nil] at htypes
    subst htypes
    exact ⟨frame, h, ht, rfl⟩
  | cons b rest ih =>
    have hlast : before.map Binding.type ++ [b.type] <+: types := by
      refine ⟨rest.map Binding.type, ?_⟩
      rw [htypes, List.map_append, List.map_cons, List.append_assoc, List.singleton_append]
    obtain ⟨own, hb, hstmts⟩ := Check.bind_eq_ok.mp hstmts
    cases hdiverges : diverges b with
    | true =>
      -- what follows is not emitted, and is not reached
      rw [hdiverges] at hstmts
      obtain rfl := Except.ok.inj hstmts
      obtain ⟨error, heval⟩ := eval_of_diverges env s hdiverges
      rw [evalBindings, bind_of_error heval]
      exact throws_of_diverges hdiverges hb
    | false =>
      rw [hdiverges] at hstmts
      obtain ⟨others, hrest, hstmts⟩ := Check.bind_eq_ok.mp hstmts
      obtain rfl := Except.ok.inj hstmts
      -- the statements of the binding, then those of the rest from where they lead
      have hfollows : Follows nans result _ env frame h b.type own (b.expr.eval env s) :=
        ht.follows hlast (hnative b List.mem_cons_self) (hoperands before b rest rfl)
          (hfits before b rest rfl) (hshown b List.mem_cons_self) hdiverges hb
      cases heval : b.expr.eval env s with
      | error error s' =>
        rw [heval] at hfollows
        rw [evalBindings, bind_of_error heval]
        exact hfollows others
      | ok v s' =>
        rw [heval] at hfollows
        rw [evalBindings, bind_of_ok heval]
        obtain ⟨frame', h', hexec, ht'⟩ := hfollows
        have hlength : (env ++ [v]).length = env.length + 1 := by simp
        rw [← hlength] at hrest
        rw [List.append_cons] at htypes hoperands hfits
        have htail := ih (before ++ [b]) htypes
          (fun c hc => hnative c (List.mem_cons_of_mem b hc)) hoperands hfits
          (fun c hc => hshown c (List.mem_cons_of_mem b hc)) (by simpa using ht') hrest
        cases hend : evalBindings (env ++ [v]) rest s' with
        | ok env' s'' =>
          rw [hend] at htail
          obtain ⟨frame'', h'', ht'', hexec'⟩ := htail
          exact ⟨frame'', h'', ht'', (hexec others).trans hexec'⟩
        | error error s'' =>
          rw [hend] at htail
          obtain ⟨exception, h'', hthrows⟩ := htail
          exact ⟨exception, h'', (hexec others).trans hthrows⟩

end

/-! ## Methods -/

/-- Whether what a method returns stands for the value of its program. Nothing is returned for the
unit value. -/
def Returns (nans : NaNs) (h : Heap) (v : Erased.Value) : Option Value → Prop
  | none => v = .unit
  | some w => v ≠ .unit ∧ Stands nans h v w

/-- Whether a method ends as its program does: with its value, on a heap that holds its arrays, or
with an exception where the program fails. Value and arrays are the same bit for bit, NaNs aside
where those show as the constants of their classes. -/
def EndsAs (nans : NaNs) : EStateM.Result RunError Store Erased.Value →
    EStateM.Result Failure Heap (Option Value) → Prop
  | .ok v s, .ok w h => Agrees nans s h ∧ Returns nans h v w
  | .error _ _, .error (.thrown _) _ => True
  | _, _ => False

/-- The check of scopes passes if every local is bound before it is read and the result is bound. It
finds the type of the result. -/
theorem checkScoping_eq_ok {p : Erased.Program} {type : Erased.Ty} :
    checkScoping p = .ok type ↔
      unbound? 0 p.bindings = none ∧ ∃ b, p.bindings[p.result]? = some b ∧ b.type = type := by
  rw [checkScoping]
  cases unbound? 0 p.bindings with
  | some found => simp
  | none => cases p.bindings[p.result]? <;> simp

/-- The parts of an emitted method. -/
theorem toMethod_eq_ok {p : Erased.Program} {m : Method} (h : p.toMethod = .ok m) :
    ∃ b body, p.bindings[p.result]? = some b ∧
      bodyStmts (p.bindings.map Binding.type)
        (if b.type = .unit then []
          else [.ret (some (localExpr (p.bindings.map Binding.type) p.result))])
        0 p.bindings = .ok body ∧
      m = ⟨true, methodName, [], Ty.ofErased? b.type, body⟩ := by
  obtain ⟨type, hscope, h⟩ := Check.bind_eq_ok.mp h
  obtain ⟨-, b, hb, rfl⟩ := checkScoping_eq_ok.mp hscope
  obtain ⟨body, hbody, h⟩ := Check.bind_eq_ok.mp h
  exact ⟨b, body, hb, hbody, (Except.ok.inj h).symm⟩

/-- The last statement returns what stands for the value of the result. -/
theorem returns_of_exec {nans : NaNs} {types : List Erased.Ty} {env : Env} {frame : Frame}
    {s : Store} {h : Heap} {l : Local} {type : Erased.Ty} {v : Erased.Value}
    (ht : Tracks nans types env frame s h) (hv : env[l]? = some v) (hhead : type.head = v.head) :
    ∃ w, exec (Ty.ofErased? type) frame
        (if type = .unit then [] else [.ret (some (localExpr types l))]) h = .ok w h ∧
      Returns nans h v w := by
  -- a method for the unit value ends without a statement of its own
  by_cases hunit : type = .unit
  · subst hunit
    refine ⟨none, rfl, ?_⟩
    exact Erased.Value.eq_unit_of_head hhead.symm
  · have hne : v ≠ .unit := by
      rintro rfl
      exact hunit (Erased.Ty.eq_unit_of_head hhead)
    obtain ⟨w, hw, hstands⟩ := eval_localExpr ht (List.prefix_refl types) hv
    obtain ⟨t, htype⟩ := exists_type_of_stands hstands hne hhead
    have hvalue : evalAs frame t (localExpr types l) h = .ok w h := by
      rw [evalAs, bind_of_ok hw]
      exact convert_of_stands hstands hhead htype
    refine ⟨some w, ?_, hne, hstands⟩
    rw [if_neg hunit, htype, exec_ret]
    exact bind_of_ok hvalue

end ArrayBridge.Java

namespace ArrayBridge.Erased.Program

open ArrayBridge.Action (bind_of_ok bind_of_error)
open ArrayBridge.Java (Method EndsAs NaNs)

variable {p : Program} {m : Method}

/-- A method ends as its program does, as soon as every literal shows as what is written for it. -/
theorem endsAs_of_showsLiteral {nans : NaNs} (hnative : ∀ b ∈ p.bindings, b.expr.IsNative)
    (hoperands : EachBinding (fun types b => b.expr.OperandsTyped types) p.bindings)
    (hfits : EachBinding Binding.Fits p.bindings) (hshown : ∀ b ∈ p.bindings, nans.ShowsLiteral b)
    (hm : p.toMethod = .ok m) : EndsAs nans p.run m.run := by
  obtain ⟨b, body, hb, hbody, rfl⟩ := Java.toMethod_eq_ok hm
  have hheads : EachBinding Binding.HeadFits p.bindings :=
    hfits.mono fun _ _ => Binding.Fits.headFits
  have hrun := Java.exec_bodyStmts (Java.Ty.ofErased? b.type) [] rfl hnative hoperands hheads
    hshown Java.Tracks.empty hbody
  show EndsAs nans
    ((evalBindings [] p.bindings >>= fun env => Action.lift (env.value p.result)) .empty)
    (Java.exec (Java.Ty.ofErased? b.type) (fun _ => none) body .empty)
  cases hend : evalBindings [] p.bindings .empty with
  | error error s =>
    rw [hend] at hrun
    obtain ⟨exception, h, hthrows⟩ := hrun
    rw [bind_of_error hend, hthrows]
    trivial
  | ok env s =>
    rw [hend] at hrun
    obtain ⟨frame, h, ht, hexec⟩ := hrun
    have ht : Java.Tracks nans (p.bindings.map Binding.type) env frame s h := ht
    -- the result is bound, at a value of the form that the method declares
    obtain ⟨v, hv, hhead⟩ : ∃ v, env[p.result]? = some v ∧ v.head = b.type.head := by
      refine exists_of_map_eq_map ht.heads.symm ?_
      rw [List.getElem?_map, hb, Option.map_some]
    obtain ⟨w, hw, hreturns⟩ := Java.returns_of_exec ht hv hhead.symm
    rw [bind_of_ok hend, Env.value_eq_ok.mpr hv, hexec, hw]
    exact ⟨ht.agrees, hreturns⟩

/-- Whether every NaN that is a literal of a program has the bits of the constant of its class. -/
def HasPlainNaNs (p : Program) : Prop :=
  ∀ b ∈ p.bindings, ∀ q, b.expr = .primLit q → q.plain = q

/-- The method that is emitted for a well typed program on native arrays returns the program's
value, bit for bit except that every NaN is the constant of its class, and throws exactly when the
program fails. Nothing is excepted if the NaNs of the program are these constants already. -/
theorem endsAs_of_toMethod (hnative : ∀ b ∈ p.bindings, b.expr.IsNative)
    (hoperands : EachBinding (fun types b => b.expr.OperandsTyped types) p.bindings)
    (hfits : EachBinding Binding.Fits p.bindings) (hm : p.toMethod = .ok m) :
    EndsAs .plain p.run m.run ∧ (p.HasPlainNaNs → EndsAs .kept p.run m.run) := by
  constructor
  · exact endsAs_of_showsLiteral hnative hoperands hfits (fun b _ => NaNs.showsLiteral_plain b) hm
  · exact fun hplain =>
      endsAs_of_showsLiteral hnative hoperands hfits (fun b hb q hq => (hplain b hb q hq).symm) hm

/-- Items move within one array, and the unit value is `null` among the items of a tuple. -/
theorem endsAs_of_toMethod_move :
    ∃ (p : Program) (m : Java.Method) (s : Store) (h : Java.Heap),
      p.toMethod = .ok m ∧ p.run = .ok (.tuple [.unit, .array ⟨.int, 0⟩]) s ∧
        m.run = .ok (some (.objects 0)) h ∧ s.elements ⟨.int, 0⟩ = [.int 7, .int 7] ∧
        h = ⟨[⟨.int, [.int 7, .int 7]⟩], [[.null, .array 0]]⟩ ∧ EndsAs .kept p.run m.run := by
  let p : Program :=
    ⟨[⟨.integer, .intLit 2⟩, ⟨.array .int, .newArray .int 0⟩, ⟨.integer, .intLit 1⟩,
      ⟨.prim .int, .primLit (.int 7)⟩, ⟨.unit, .store .int 1 2 3⟩,
      ⟨.unit, .arrayCopy .int 1 (.read 2) 1 (.const 0) .remaining⟩,
      ⟨.tuple [.unit, .array .int], .tuple [5, 1]⟩], 6⟩
  have hnative : ∀ b ∈ p.bindings, b.expr.IsNative := by simp [p, Expr.IsNative]
  have hoperands : EachBinding (fun types b => b.expr.OperandsTyped types) p.bindings := by
    refine ((((((EachBinding.nil.concat ?_).concat ?_).concat ?_).concat ?_).concat ?_).concat
      ?_).concat ?_
    all_goals
      simp [Expr.OperandsTyped, Expr.operands, Operand.operands, Operand.usedLocals,
        CopyLength.operands, CopyLength.usedLocals, Role.Admits, Ty.head]
    · rintro _ _ (⟨rfl, rfl⟩ | ⟨rfl, rfl⟩ | ⟨rfl, rfl⟩) <;> simp
    · rintro _ _ (⟨rfl, rfl⟩ | ⟨rfl, rfl⟩ | ⟨rfl, rfl⟩) <;> simp
    · rintro _ _ (⟨rfl, rfl⟩ | ⟨rfl, rfl⟩) <;> simp
  have hfits : EachBinding Binding.Fits p.bindings := by
    refine ((((((EachBinding.nil.concat ?_).concat ?_).concat ?_).concat ?_).concat ?_).concat
      ?_).concat ?_
    all_goals simp [Binding.Fits, Expr.type?, Prim.kind]
  let h : Java.Heap := ⟨[⟨.int, [.int 7, .int 7]⟩], [[.null, .array 0]]⟩
  obtain ⟨m, hm, hmethod⟩ : ∃ m, p.toMethod = .ok m ∧ m.run = .ok (some (.objects 0)) h :=
    ⟨_, rfl, by with_unfolding_all rfl⟩
  have hrun : p.run = .ok (.tuple [.unit, .array ⟨.int, 0⟩]) ⟨#[#[7, 7]], #[]⟩ := by
    with_unfolding_all rfl
  have hplain : p.HasPlainNaNs := by simp [p, HasPlainNaNs, Prim.plain]
  obtain ⟨-, hends⟩ := endsAs_of_toMethod hnative hoperands hfits hm
  exact ⟨p, m, _, h, hm, hrun, hmethod, rfl, rfl, hends hplain⟩

/-- A NaN with other bits than those of `Float.NaN` does not come back with them. -/
theorem not_endsAs_kept_nan :
    let x : Binary.Single := .ofBits _ 0x7fc00001
    let p : Program := ⟨[⟨.prim .float, .primLit (.float x)⟩], 0⟩
    (∀ b ∈ p.bindings, b.expr.IsNative) ∧
      EachBinding (fun types b => b.expr.OperandsTyped types) p.bindings ∧
      EachBinding Binding.Fits p.bindings ∧
      ∃ m, p.toMethod = .ok m ∧ p.run = .ok (.prim (.float x)) .empty ∧
        m.run = .ok (some (.scalar (.float .nan))) .empty ∧ x.toBits = 0x7fc00001 ∧
        (Binary.Number.nan : Binary.Single).toBits = 0x7fc00000 ∧
        ¬ EndsAs .kept p.run m.run := by
  intro x p
  have hfits : EachBinding Binding.Fits p.bindings := EachBinding.nil.concat (by
    simp [Binding.Fits, Expr.type?, Prim.kind])
  have hoperands : EachBinding (fun types b => b.expr.OperandsTyped types) p.bindings :=
    EachBinding.nil.concat (by simp [Expr.OperandsTyped, Expr.operands])
  have hrun : p.run = .ok (.prim (.float x)) .empty := rfl
  have hmethod : ∃ m, p.toMethod = .ok m ∧
      m.run = .ok (some (.scalar (.float .nan))) .empty := ⟨_, rfl, by with_unfolding_all rfl⟩
  obtain ⟨m, hm, hmethod⟩ := hmethod
  refine ⟨by simp [p, Expr.IsNative], hoperands, hfits, m, hm, hrun, hmethod, by decide, by decide,
    ?_⟩
  rw [hrun, hmethod]
  rintro ⟨-, -, hstands⟩
  -- the two would be one element
  have hsame : Prim.float x = .float .nan := Prim.scalar?_injective hstands rfl
  exact absurd hsame (by decide)

end ArrayBridge.Erased.Program
