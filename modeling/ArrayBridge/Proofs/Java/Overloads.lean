import ArrayBridge.Java.Companion
import ArrayBridge.Proofs.Java.Operands

/-!
# The overloads of a copy

A companion class has a static method that copies between arrays, with overloads that leave the
length or a position to a default. They pass the defaults on to the full method, which computes
with wrapping `int`s. What wraps is refused, as the position that makes it wrap is.

A class is run here as far as its static methods call one another: a frame is made of the arguments,
and a call in front of a body goes to the only method that its name and number of arguments can
mean.

Main results:

* `bindParams_apply` — the frame that a method starts from.
* `arraycopy_endsAlike` — a copy in Java against one of the library.
* `eval_remainingPast`, `evalAll_defaults` — the defaults that an overload passes on.
* `copyToMember_endsAlike` — each overload copies as the wrapper does.
-/

namespace ArrayBridge.Java

open ArrayBridge.Action (bind_of_ok bind_of_error)

/-! ## Static methods -/

/-- The frame of a method, in which its parameters have the values of the arguments. -/
def bindParams : List Parameter → List Value → Exec Frame
  | [], [] => return fun _ => none
  | p :: ps, v :: vs => do
    let v ← convert p.type v
    let frame ← bindParams ps vs
    if (frame p.name).isSome then stuck else return Function.update frame p.name (some v)
  | _, _ => stuck

/-- Executes a body that begins with calls of methods of its own class. -/
def execCalls (invoke : String → List Value → Exec Unit) (result : Option Ty) (frame : Frame) :
    List Stmt → Exec (Option Value)
  | .eval (.call name args) :: rest => do
    invoke name (← evalAll frame args)
    execCalls invoke result frame rest
  | body => exec result frame body

/-- The method that a member is, if it has the given name and number of parameters. -/
def Member.method? (name : String) (count : Nat) : Member → Option Method
  | .method m => if m.name = name ∧ m.params.length = count then some m else none
  | _ => none

/-- The static method that a call can only mean. -/
def ClassDecl.overload? (c : ClassDecl) (name : String) (count : Nat) : Option Method :=
  match c.members.filterMap (Member.method? name count) with
  | [m] => if m.isStatic then some m else none
  | _ => none

/-- Runs a static method of a class, where no more than `depth` calls may be nested. -/
def ClassDecl.invoke (c : ClassDecl) : Nat → Method → List Value → Exec (Option Value)
  | 0, _, _ => raise "StackOverflowError"
  | depth + 1, m, args => do
    let frame ← bindParams m.params args
    let call (name : String) (args : List Value) : Exec Unit := do
      let callee ← demand (c.overload? name args.length)
      let _ ← invoke c depth callee args
    execCalls call m.result frame m.body

/-! ### Frames -/

/-- The parameters of a method with the values of its arguments. -/
def argumentFrame : List Parameter → List Value → Frame
  | p :: ps, v :: vs => Function.update (argumentFrame ps vs) p.name (some v)
  | _, _ => fun _ => none

/-- Parameters are the only variables when a method begins. -/
theorem argumentFrame_eq_none {x : String} {ps : List Parameter} {vs : List Value}
    (hx : x ∉ ps.map Parameter.name) : argumentFrame ps vs x = none := by
  induction ps generalizing vs with
  | nil => rfl
  | cons p ps ih =>
    rw [List.map_cons, List.mem_cons, not_or] at hx
    cases vs with
    | nil => rfl
    | cons v vs =>
      rw [argumentFrame, Function.update_of_ne hx.1]
      exact ih hx.2

/-- A method starts with its arguments, if they are of the types that it declares. -/
theorem bindParams_apply {h : Heap} {ps : List Parameter} {vs : List Value}
    (hnames : (ps.map Parameter.name).Nodup)
    (hconvert : List.Forall₂ (fun p v => convert (Parameter.type p) v h = .ok v h) ps vs) :
    bindParams ps vs h = .ok (argumentFrame ps vs) h := by
  induction hconvert with
  | nil => rfl
  | @cons p v ps vs hv _ ih =>
    -- no parameter hides another
    obtain ⟨hfree, hnames⟩ := List.nodup_cons.mp hnames
    rw [bindParams, bind_of_ok hv, bind_of_ok (ih hnames), argumentFrame_eq_none hfree]
    rfl

/-! ## Copies -/

/-- Whether a method that returns nothing ends as an action does: either both come to an end, with
the same contents of all arrays, or the method throws and the action fails. -/
def EndAlike :
    EStateM.Result Failure Heap (Option Value) → EStateM.Result ArrayFault Store Unit → Prop
  | .ok none h, .ok () s => Agrees .kept s h
  | .error (.thrown _) _, .error _ _ => True
  | _, _ => False

/-- An exception ends like a fault. -/
theorem Throws.endAlike {x : Exec (Option Value)} {h : Heap} (hx : Throws x h) (error : ArrayFault)
    (s : Store) : EndAlike (x h) (.error error s) := by
  obtain ⟨exception, h', hx⟩ := hx
  rw [hx]
  trivial

section

variable {s : Store} {h : Heap} {a d : ArrayRef} (hagree : Agrees .kept s h)
  (ha : h.kind? a.place = some a.kind) (hd : h.kind? d.place = some d.kind)

include hagree ha hd

/-- A copy in Java ends as one of the library. A length that is not given is what remains of the
arrays, where Java computes it with subtractions that may wrap. -/
theorem arraycopy_endsAlike (hkind : d.kind = a.kind) (i j : Int32) (length : Option Int32) :
    EndAlike
      ((arraycopy (.array a.place) i (.array d.place) j
        (length.getD (remainingCount (s.length a) (s.length d) i j)) >>= fun _ => pure none) h)
      (a.copyTo d i.toInt64 j.toInt64 (length.map Int32.toInt64) s) := by
  -- arguments are `int` numbers already, so nothing is refused for its size
  have hfits (n : Int32) : FitsInt n.toInt64 := by rw [FitsInt, Int32.toInt32_toInt64]
  have hcount : intCount (s.length a) (s.length d) i j (length.map Int32.toInt64) =
      length.getD (remainingCount (s.length a) (s.length d) i j) := by
    cases length with
    | none => rfl
    | some n => exact Int32.toInt32_toInt64 n
  rw [ArrayRef.copyTo_apply s a d _ _ _ hkind,
    copyRange?_eq (hagree.length_le ha) (hagree.length_le hd) (hfits i) (hfits j)
      (by simpa using fun n _ => hfits n)]
  simp only [Int32.toInt32_toInt64, hcount]
  by_cases hcopy : Copyable (s.length a) (s.length d) i j
      (length.getD (remainingCount (s.length a) (s.length d) i j))
  · rw [if_pos hcopy]
    obtain ⟨h', hmove, -, hagrees⟩ := arraycopy_agrees hagree ha hd hkind hcopy
    rw [bind_of_ok hmove]
    exact hagrees
  · rw [if_neg hcopy]
    exact ((throws_arraycopy hagree ha hd hkind hcopy).bind _).endAlike _ _

end

/-! ### Defaults -/

/-- Whether a position that an overload takes has the given value, and is missing where there is
none. -/
def Supplies (frame : Frame) (h : Heap) : Option Expr → Option Int32 → Prop :=
  Option.Rel fun e n => eval frame e h = .ok (.scalar (.int n)) h

section

variable {frame : Frame} {s : Store} {h : Heap} {e e' : Option Expr} {i j : Option Int32}

/-- A position that is not given is zero. -/
theorem Supplies.eval_getD (he : Supplies frame h e i) :
    eval frame (e.getD (.intLit 0)) h = .ok (.scalar (.int (i.getD 0))) h := by
  cases he with
  | none => rfl
  | some he => exact he

/-- What remains of an array past a position, in `int` arithmetic. -/
theorem eval_remainingPast {x : String} {a : ArrayRef} (hagree : Agrees .kept s h)
    (ha : h.kind? a.place = some a.kind) (hx : frame x = some (.array a.place))
    (he : Supplies frame h e i) :
    eval frame (remainingPast x e) h =
      .ok (.scalar (.int (Int32.ofNat (s.length a) - i.getD 0))) h := by
  have hlength : eval frame (lengthOf x) h =
      .ok (.scalar (.int (Int32.ofNat (s.length a)))) h := by
    rw [lengthOf, eval_field, eval_name frame hx]
    exact length_agrees hagree ha
  cases he with
  | none => simpa [remainingPast] using hlength
  | some he =>
    rw [remainingPast, eval_minus, bind_of_ok hlength]
    show (eval frame _ >>= _) h = _
    rw [bind_of_ok he]
    rfl

/-- What an overload passes on: the positions, zero for a missing one, and what remains. -/
theorem evalAll_defaults {a d : ArrayRef} (hagree : Agrees .kept s h)
    (ha : h.kind? a.place = some a.kind) (hd : h.kind? d.place = some d.kind)
    (harray : frame "array" = some (.array a.place))
    (hdestination : frame "destination" = some (.array d.place)) (hmath : frame "Math" = none)
    (he : Supplies frame h e i) (he' : Supplies frame h e' j) :
    evalAll frame [.name "array", .name "destination", e.getD (.intLit 0), e'.getD (.intLit 0),
        .callOn "Math" "min" [remainingPast "array" e, remainingPast "destination" e']] h =
      .ok [.array a.place, .array d.place, .scalar (.int (i.getD 0)), .scalar (.int (j.getD 0)),
        .scalar (.int (remainingCount (s.length a) (s.length d) (i.getD 0) (j.getD 0)))] h := by
  have hname {x : String} {v : Value} (hx : frame x = some v) :
      eval frame (.name x) h = .ok v h := by
    rw [eval_name frame hx]
    rfl
  -- The count is written last, and is the smaller of what either array has left.
  have hcount := evalAll_of_eval (eval_remainingPast hagree ha harray he)
    (evalAll_of_eval (eval_remainingPast hagree hd hdestination he') evalAll_nil)
  refine evalAll_of_eval (hname harray) (evalAll_of_eval (hname hdestination)
    (evalAll_of_eval he.eval_getD (evalAll_of_eval he'.eval_getD
      (evalAll_of_eval ?_ evalAll_nil))))
  rw [eval_callOn, bind_of_ok hcount, Frame.call, hmath, callStatic_min]
  rfl

end

/-! ### The overloads -/

/-- A call of a static method of a class for its effect. -/
def ClassDecl.callOwn (c : ClassDecl) (depth : Nat) (name : String) (args : List Value) :
    Exec Unit := do
  let callee ← demand (c.overload? name args.length)
  let _ ← c.invoke depth callee args

section

variable {c : ClassDecl} {m : Method} {args : List Value} {frame : Frame} {h : Heap}

/-- A method is invoked by executing its body with its parameters bound. -/
theorem ClassDecl.invoke_of_bindParams (hbind : bindParams m.params args h = .ok frame h)
    (depth : Nat) :
    c.invoke (depth + 1) m args h = execCalls (c.callOwn depth) m.result frame m.body h :=
  bind_of_ok hbind

theorem bind_congr_left {α β : Type} {x y : Exec α} (hxy : x h = y h) (f : α → Exec β) :
    (x >>= f) h = (y >>= f) h := by
  show EStateM.bind x f h = EStateM.bind y f h
  rw [EStateM.bind, EStateM.bind, hxy]

/-- A call within the class goes to the overload with as many parameters as there are arguments. -/
theorem ClassDecl.callOwn_of_overload {name : String} (hm : c.overload? name args.length = some m)
    (depth : Nat) :
    c.callOwn depth name args = c.invoke depth m args >>= fun _ => pure () := by
  rw [callOwn, hm]
  rfl

end

/-- The parameter at a place, where a copying helper has as many. -/
def suppliedParam (k : Kind) (count i : Nat) : Option Expr :=
  ((copyParams k).take count)[i]?.map fun p => .name p.name

/-- The copying helper that takes the given number of parameters. -/
def copyMethod (k : Kind) (count : Nat) : Method :=
  ⟨true, "copyTo", (copyParams k).take count, none,
    if count = 5 then fullCopyBody
    else defaultCopyBody (suppliedParam k count 2) (suppliedParam k count 3)⟩

theorem copyToMember_eq (k : Kind) (count : Nat) :
    copyToMember k count = .method (copyMethod k count) := rfl

/-- Besides the full helper no static method has its name and as many parameters. -/
theorem overload?_copyTo (settings : Settings) (k : Kind) :
    (companion settings k).classDecl.overload? "copyTo" 5 = some (copyMethod k 5) := by
  cases k <;> rfl

/-- The class declares all four overloads. -/
theorem copyToMember_mem (settings : Settings) (k : Kind) {count : Nat}
    (hcount : 2 ≤ count ∧ count ≤ 5) :
    copyToMember k count ∈ (companion settings k).classDecl.members := by
  refine List.mem_append_left _ (List.mem_append_right _ (List.mem_map_of_mem ?_))
  simp only [List.mem_cons, List.not_mem_nil, or_false]
  omega

/-- The values of two arrays and of the `int`s that a copying helper takes. -/
def copyArgs (a d : ArrayRef) (given : List Int32) : List Value :=
  .array a.place :: .array d.place :: given.map fun n => .scalar (.int n)

section

variable {h : Heap} {a d : ArrayRef} {k : Kind}

/-- An array is what a parameter of its type declares. -/
theorem convert_array {place : Nat} (hplace : h.kind? place = some k) :
    convert (arrayType k) (.array place) h = .ok (.array place) h := by
  have hprim : h.arrays[place]?.map (Ty.prim ·.kind) = some (.prim k) := by
    rw [Heap.kind?, Option.map_eq_some_iff] at hplace
    obtain ⟨b, hb, rfl⟩ := hplace
    rw [hb]
    rfl
  show (if h.arrays[place]?.map (Ty.prim ·.kind) = some (.prim k) then
    (pure (Value.array place) : Exec Value) else stuck) h = _
  simp only [hprim, if_pos]
  rfl

/-- The frame of a copying helper. -/
def copyFrame (k : Kind) (a d : ArrayRef) (given : List Int32) : Frame :=
  argumentFrame ((copyParams k).take (given.length + 2)) (copyArgs a d given)

/-- What the body of a helper with defaults finds in its frame. -/
theorem copyFrame_defaults (k : Kind) (a d : ArrayRef) (h : Heap) {given : List Int32}
    (hgiven : given.length ≤ 2) :
    let source := suppliedParam k (given.length + 2) 2
    let target := suppliedParam k (given.length + 2) 3
    let frame := copyFrame k a d given
    (copyMethod k (given.length + 2)).body = defaultCopyBody source target ∧
      frame "Math" = none ∧ frame "array" = some (.array a.place) ∧
      frame "destination" = some (.array d.place) ∧
      Supplies frame h source given[0]? ∧ Supplies frame h target given[1]? := by
  -- A position that is not given is no parameter of the overload, and zero in its body.
  match given, hgiven with
  | [], _ => exact ⟨rfl, rfl, rfl, rfl, .none, .none⟩
  | [_], _ => exact ⟨rfl, rfl, rfl, rfl, .some rfl, .none⟩
  | [_, _], _ => exact ⟨rfl, rfl, rfl, rfl, .some rfl, .some rfl⟩

variable (ha : h.kind? a.place = some k) (hd : h.kind? d.place = some k)

include ha hd

/-- A copying helper starts with two arrays of its kind and the `int`s that it takes. -/
theorem bindParams_copyParams {given : List Int32} (hgiven : given.length ≤ 3) :
    bindParams ((copyParams k).take (given.length + 2)) (copyArgs a d given) h =
      .ok (copyFrame k a d given) h := by
  refine bindParams_apply ?_ ?_
  · have hnames : ((copyParams k).map Parameter.name).Nodup := by simp [copyParams]
    exact hnames.sublist ((List.take_sublist _ _).map _)
  · have hint (n : Int32) : convert (.prim .int) (.scalar (.int n)) h =
        .ok (.scalar (.int n)) h := rfl
    refine .cons (convert_array ha) (.cons (convert_array hd) ?_)
    -- There is an overload for each number of ints that can be given.
    match given, hgiven with
    | [], _ => exact .nil
    | [_], _ => exact .cons (hint _) .nil
    | [_, _], _ => exact .cons (hint _) (.cons (hint _) .nil)
    | [_, _, _], _ => exact .cons (hint _) (.cons (hint _) (.cons (hint _) .nil))

/-- An overload is invoked with two arrays and the numbers that are given. -/
theorem invoke_copyMethod (c : ClassDecl) (depth : Nat) (given : List Int32)
    (hgiven : given.length ≤ 3) :
    c.invoke (depth + 1) (copyMethod k (given.length + 2)) (copyArgs a d given) h =
      execCalls (c.callOwn depth) none
        (copyFrame k a d given)
        (copyMethod k (given.length + 2)).body h :=
  ClassDecl.invoke_of_bindParams (bindParams_copyParams ha hd hgiven) depth

/-- The full helper only copies. -/
theorem invoke_full (c : ClassDecl) (depth : Nat) (i j n : Int32) :
    c.invoke (depth + 1) (copyMethod k 5) (copyArgs a d [i, j, n]) h =
      (arraycopy (.array a.place) i (.array d.place) j n >>= fun _ => pure none) h := by
  refine (invoke_copyMethod ha hd c depth [i, j, n] (Nat.le_refl 3)).trans ?_
  have hargs : evalAll (copyFrame k a d [i, j, n])
      [.name "array", .name "sourcePosition", .name "destination", .name "destinationPosition",
        .name "length"] h =
      .ok [.array a.place, .scalar (.int i), .array d.place, .scalar (.int j),
        .scalar (.int n)] h := rfl
  have hcall : Frame.call (copyFrame k a d [i, j, n]) "System"
      "arraycopy" [.array a.place, .scalar (.int i), .array d.place, .scalar (.int j),
        .scalar (.int n)] =
      arraycopy (.array a.place) i (.array d.place) j n >>= fun _ => pure none :=
    callStatic_arraycopy _ _ i j n
  show (perform (copyFrame k a d [i, j, n]) (.callOn _ _ _) >>=
    fun _ => pure none) h = _
  rw [perform_callOn, bind_assoc, bind_of_ok hargs, hcall, bind_assoc, bind_assoc]
  rfl

/-- Any other helper passes on what it is given, and the defaults for what it is not. -/
theorem invoke_defaults {s : Store} (hagree : Agrees .kept s h) (hak : a.kind = k)
    (hdk : d.kind = k) (settings : Settings) (depth : Nat) (given : List Int32)
    (hgiven : given.length ≤ 2) :
    (companion settings k).classDecl.invoke (depth + 2) (copyMethod k (given.length + 2))
        (copyArgs a d given) h =
      (arraycopy (.array a.place) (given[0]?.getD 0) (.array d.place) (given[1]?.getD 0)
        (remainingCount (s.length a) (s.length d) (given[0]?.getD 0) (given[1]?.getD 0)) >>=
        fun _ => pure none) h := by
  obtain ⟨hbody, hmath, harray, hdestination, hsource, htarget⟩ := copyFrame_defaults k a d h hgiven
  have hargs := evalAll_defaults hagree (hak ▸ ha) (hdk ▸ hd) harray hdestination hmath hsource
    htarget
  -- The call in the body is of the overload with five parameters, which passes everything on.
  have hfull := invoke_full ha hd (companion settings k).classDecl depth (given[0]?.getD 0)
    (given[1]?.getD 0)
    (remainingCount (s.length a) (s.length d) (given[0]?.getD 0) (given[1]?.getD 0))
  rw [invoke_copyMethod ha hd _ _ _ (Nat.le_succ_of_le hgiven), hbody]
  show (evalAll (copyFrame k a d given) _ >>= fun vs => _ >>= fun _ => pure none) h = _
  rw [bind_of_ok hargs, ClassDecl.callOwn_of_overload (overload?_copyTo settings k), bind_assoc]
  refine (bind_congr_left hfull _).trans ?_
  rw [bind_assoc]
  rfl

end

/-- Every static copying helper of a companion class ends as the copy of the library does, with the
positions and the length that the helper does not take left to their defaults. -/
theorem copyToMember_endsAlike (settings : Settings) {k : Kind} {a d : ArrayRef} {s : Store}
    {h : Heap} (hagree : Agrees .kept s h) (ha : a.kind = k ∧ h.kind? a.place = some k)
    (hd : d.kind = k ∧ h.kind? d.place = some k) (given : List Int32) (hgiven : given.length ≤ 3)
    (depth : Nat) :
    ∃ m, copyToMember k (given.length + 2) = .method m ∧
      Member.method m ∈ (companion settings k).classDecl.members ∧
      EndAlike
        ((companion settings k).classDecl.invoke (depth + 2) m
          (.array a.place :: .array d.place :: given.map fun n => .scalar (.int n)) h)
        (a.copyFrom d (given[0]?.map Int32.toInt64) (given[1]?.map Int32.toInt64)
          (given[2]?.map Int32.toInt64) s) := by
  obtain ⟨rfl, hplace⟩ := ha
  obtain ⟨hkind, hplace'⟩ := hd
  refine ⟨copyMethod a.kind (given.length + 2), rfl, ?_, ?_⟩
  · rw [← copyToMember_eq]
    exact copyToMember_mem settings a.kind (by omega)
  · have hends := arraycopy_endsAlike hagree hplace (hkind ▸ hplace') hkind (given[0]?.getD 0)
      (given[1]?.getD 0) given[2]?
    have hposition (n : Option Int32) :
        (n.map Int32.toInt64).getD 0 = (n.getD 0).toInt64 := by cases n <;> rfl
    rw [ArrayRef.copyFrom, hposition, hposition]
    change EndAlike (ClassDecl.invoke _ _ _ (copyArgs a d given) h) _
    -- only the longest overload copies by itself, the others call it with defaults
    by_cases hfull : given.length = 3
    · match given, hfull with
      | [i, j, n], _ =>
        show EndAlike (ClassDecl.invoke _ (depth + 1 + 1) (copyMethod a.kind 5) _ h) _
        rw [invoke_full hplace hplace']
        exact hends
    · have hfew : given.length ≤ 2 := by omega
      rw [invoke_defaults hplace hplace' hagree rfl hkind settings depth given hfew]
      rw [List.getElem?_eq_none (by omega : given.length ≤ 2)] at hends ⊢
      exact hends

/-- Items move to the right within one array, and at the least position, where the default length
wraps, the copy is refused. -/
theorem copyToMember_endsAlike_overlap :
    let c := (companion {} .int).classDecl
    let a : ArrayRef := ⟨.int, 0⟩
    let s : Store := ⟨#[#[1, 2, 3]], #[]⟩
    let h : Heap := ⟨[⟨.int, [.int 1, .int 2, .int 3]⟩], []⟩
    c.invoke 2 (copyMethod .int 4) (copyArgs a a [0, 1]) h =
        .ok none ⟨[⟨.int, [.int 1, .int 1, .int 2]⟩], []⟩ ∧
      a.copyFrom a (some 0) (some 1) none s = .ok () ⟨#[#[1, 1, 2]], #[]⟩ ∧
      EndAlike (c.invoke 2 (copyMethod .int 4) (copyArgs a a [0, 1]) h)
        (a.copyFrom a (some 0) (some 1) none s) ∧
      EndAlike (c.invoke 2 (copyMethod .int 3) (copyArgs a a [Int32.minValue]) h)
        (a.copyFrom a (some Int32.minValue.toInt64) none none s) := by
  intro c a s h
  have hagree : Agrees .kept s h := by
    refine ⟨rfl, fun i b hb => ?_, by decide⟩
    match i with
    | 0 =>
      cases hb
      rfl
    | i + 1 => cases hb
  obtain ⟨m, hm, -, hmoved⟩ := copyToMember_endsAlike {} hagree (a := a) (d := a) ⟨rfl, rfl⟩
    ⟨rfl, rfl⟩ [0, 1] (by decide) 0
  obtain ⟨m', hm', -, hrefused⟩ := copyToMember_endsAlike {} hagree (a := a) (d := a) ⟨rfl, rfl⟩
    ⟨rfl, rfl⟩ [Int32.minValue] (by decide) 0
  obtain rfl : copyMethod .int 4 = m := Member.method.inj hm
  obtain rfl : copyMethod .int 3 = m' := Member.method.inj hm'
  -- the remaining two items are moved
  have hinvoke := invoke_defaults (a := a) (d := a) rfl rfl hagree rfl rfl {} 0
    [0, 1] (by decide)
  exact ⟨hinvoke.trans (by with_unfolding_all rfl), rfl, hmoved, hrefused⟩

end ArrayBridge.Java
