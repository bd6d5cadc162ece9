import ArrayBridge.Proofs.Java.Scoping

/-!
# Look-ups of declared types

A method is emitted with one look-up of a declared type for every use of a local, and none of these
look-ups is guarded: what keeps them within the bindings of the program is the check of scopes that
goes before. Here the method is emitted once more, step by step, with look-ups that stop the
emission at a local beyond the bindings.

Main results:

* `bindingAt_eq` — the locals that an expression reads are all that is looked up for its binding,
  besides the local that is bound.
* `toMethodChecked_eq` — no look-up for a method is out of range.
-/

namespace ArrayBridge.Java

open ArrayBridge.Erased (Binding CopyLength Operand Program)

/-- Why the emission of a method stops where look-ups are checked. -/
inductive EmitStop where
  | error (error : EmitError)
  /-- The declared type of a local that no binding declares was looked up. -/
  | outOfRange (l : Local)
deriving DecidableEq, Repr

/-! ## Checked emission -/

section

variable (types : List Erased.Ty)

/-- The declared type of a local. -/
def typeAt (l : Local) : Except EmitStop Erased.Ty :=
  match types[l]? with
  | some type => .ok type
  | none => .error (.outOfRange l)

/-- The value of a local. -/
def localAt (l : Local) : Except EmitStop Expr := do
  if (← typeAt types l) = .unit then return .null else return .name (localName l)

/-- The value of a local as an `int`. -/
def indexAt (l : Local) : Except EmitStop Expr := toInt <$> localAt types l

/-- An offset or a length as an `int`. -/
def operandAt : Operand → Except EmitStop Expr
  | .read l => indexAt types l
  | .const n => return intExpr n

/-- The length of an array. -/
def lengthAt (array : Local) : Except EmitStop Expr := do
  return .field (← localAt types array) "length"

/-- The number of elements of an array past an offset. -/
def remainingAt (array : Local) (offset : Operand) : Except EmitStop Expr := do
  let length ← lengthAt types array
  if offset = .const 0 then return length
  else return .binary .minus length (← operandAt types offset)

/-- A local as a generic sequence. -/
def sequenceAt (l : Local) : Except EmitStop Expr := do
  match ← typeAt types l with
  | .object d =>
    if d.isSequence then localAt types l else return .cast sequenceType (← localAt types l)
  | _ => return .cast sequenceType (← localAt types l)

/-- The number of elements that are copied. -/
def copyLengthAt (source : Local) (sourceOffset : Operand) (destination : Local)
    (destinationOffset : Operand) : CopyLength → Except EmitStop Expr
  | .explicit n => operandAt types n
  | .remaining => do
    let fromSource ← remainingAt types source sourceOffset
    let toDestination ← remainingAt types destination destinationOffset
    return .callOn "Math" "min" [fromSource, toDestination]

/-- The statements of a binding. -/
def bindingAt (l : Local) (b : Binding) : Except EmitStop (List Stmt) :=
  let declare (value : Expr) := declareStmts l b.type value
  match b.expr with
  | .var source => if b.type = .unit then return [] else declare <$> localAt types source
  | .intLit n => return declare (.longLit n)
  | .primLit p => declare <$> (primExpr l p).mapError .error
  | .tuple items => do
    return declare (.arrayInit objectType (← items.mapM (localAt types)))
  | .newArray k size => do return declare (.newArray (.prim k) (← indexAt types size))
  | .fillArray k size element => do
    let array := Expr.newArray (.prim k) (← indexAt types size)
    -- the fresh array is read as a local of its own binding
    return declare array ++ [.eval (.callOn "java.util.Arrays" "fill"
      [← localAt types l, ← localAt types element])]
  | .load _ array index => do
    return declare (.access (← localAt types array) (← indexAt types index))
  | .store _ array index value => do
    return declare (.assign (.access (← localAt types array) (← indexAt types index))
      (← localAt types value))
  | .arrayLength _ array => declare <$> lengthAt types array
  | .arrayCopy _ source sourceOffset destination destinationOffset length => do
    let length ← copyLengthAt types source sourceOffset destination destinationOffset length
    return declare (.callOn "System" "arraycopy"
      [← localAt types source, ← operandAt types sourceOffset,
       ← localAt types destination, ← operandAt types destinationOffset, length])
  | .wrapAdapter k array => do
    return declare (.callOn k.wrapperName "getArray" [← localAt types array])
  | .copyFromGeneric k sequence => do
    return declare (.callOn k.wrapperName "copyOf" [← sequenceAt types sequence])
  | .invokeWrapper k op => return [.raise (unsupportedInvocation k op)]
  | .genericSize sequence => do
    return declare (.methodCall (← sequenceAt types sequence) "getSize" [])
  | .genericGet sequence index => do
    return declare (.methodCall (← sequenceAt types sequence) "getFromFirst"
      [← localAt types index])
  | .genericSet sequence index value => do
    return declare (.methodCall (← sequenceAt types sequence) "set"
      [← localAt types index, ← localAt types value])
  | .typeTest value d => do
    return declare (.callOn "Util" "isReified" [← localAt types value, descriptorExpr d])
  | .typeOf value => do return declare (.callOn "Util" "typeOf" [← localAt types value])
  | .sequenceLit element items => do
    let items ← (items.mapM (boxedExpr l)).mapError .error
    return declare (.callOn "Array" "of" [descriptorExpr element, .arrayInit objectType items])

/-- The statements of the bindings from the given place on, up to the first that diverges, and those
at the end if none does. -/
def bodyAt (last : Except EmitStop (List Stmt)) (l : Local) :
    List Binding → Except EmitStop (List Stmt)
  | [] => last
  | b :: rest => do
    let stmts ← bindingAt types l b
    if diverges b then return stmts
    return stmts ++ (← bodyAt last (l + 1) rest)

/-- The statements that return the result of a program. -/
def returnAt (result : Local) : Except EmitStop (List Stmt) := do
  if (← typeAt types result) = .unit then return []
  else return [.ret (some (← localAt types result))]

end

end ArrayBridge.Java

/-- The method that computes a program's result, with checked look-ups. -/
def ArrayBridge.Erased.Program.toMethodChecked (p : Program) :
    Except Java.EmitStop Java.Method := do
  let _ ← (Java.checkScoping p).mapError .error
  let types := p.bindings.map Binding.type
  let body ← Java.bodyAt types (Java.returnAt types p.result) 0 p.bindings
  let type ← Java.typeAt types p.result
  return ⟨true, Java.methodName, [], Java.Ty.ofErased? type, body⟩

namespace ArrayBridge.Java

open ArrayBridge.Erased (Binding CopyLength Operand Program)

/-! ## Look-ups within the bindings -/

section

variable {types : List Erased.Ty} {l : Local}

/-- Beyond the bindings a look-up stops the emission. -/
theorem localAt_of_le (h : types.length ≤ l) : localAt types l = .error (.outOfRange l) := by
  rw [localAt, typeAt, List.getElem?_eq_none h]
  rfl

/-- A bound local has a type to look up, -/
theorem typeAt_eq {type : Erased.Ty} (h : types[l]? = some type) : typeAt types l = .ok type := by
  rw [typeAt, h]

/-- so its variable is found, -/
theorem localAt_eq (h : l < types.length) : localAt types l = .ok (localExpr types l) := by
  have htype : types[l]? = some types[l] := List.getElem?_eq_getElem h
  rw [localAt, typeAt_eq htype, localExpr, htype, Check.ok_bind]
  by_cases hunit : types[l] = .unit
  · rw [if_pos hunit, if_pos (congrArg some hunit)]
    rfl
  · rw [if_neg hunit, if_neg (fun heq => hunit (Option.some.inj heq))]
    rfl

theorem indexAt_eq (h : l < types.length) : indexAt types l = .ok (indexExpr types l) := by
  rw [indexAt, localAt_eq h]
  rfl

/-- and so are those of an operand. -/
theorem operandAt_eq {o : Operand} (h : ∀ l ∈ o.usedLocals, l < types.length) :
    operandAt types o = .ok (operandExpr types o) := by
  cases o with
  | read l => exact indexAt_eq (h l List.mem_cons_self)
  | const n => rfl

theorem lengthAt_eq (h : l < types.length) : lengthAt types l = .ok (lengthExpr types l) := by
  rw [lengthAt, localAt_eq h]
  rfl

theorem remainingAt_eq {o : Operand} (h : l < types.length)
    (ho : ∀ l ∈ o.usedLocals, l < types.length) :
    remainingAt types l o = .ok (remainingExpr types l o) := by
  rw [remainingAt, lengthAt_eq h, operandAt_eq ho, remainingExpr, Check.ok_bind]
  split <;> rfl

theorem sequenceAt_eq (h : l < types.length) :
    sequenceAt types l = .ok (sequenceExpr types l) := by
  have htype : types[l]? = some types[l] := List.getElem?_eq_getElem h
  rw [sequenceAt, typeAt_eq htype, localAt_eq h, sequenceExpr, htype, Check.ok_bind]
  cases types[l] with
  | object d => cases hd : d.isSequence <;> simp [hd]
  | _ => rfl

/-- The length of a copy looks up both arrays and both offsets if it is left out. -/
theorem copyLengthAt_eq {source destination : Local} {i j : Operand} {n : CopyLength}
    (hsource : source < types.length) (hi : ∀ l ∈ i.usedLocals, l < types.length)
    (hdestination : destination < types.length) (hj : ∀ l ∈ j.usedLocals, l < types.length)
    (hn : ∀ l ∈ n.usedLocals, l < types.length) :
    copyLengthAt types source i destination j n =
      .ok (copyLengthExpr types source i destination j n) := by
  cases n with
  | explicit n => exact operandAt_eq hn
  | remaining =>
    rw [copyLengthAt, remainingAt_eq hsource hi, remainingAt_eq hdestination hj]
    rfl

theorem mapM_localAt_eq {items : List Local} (h : ∀ l ∈ items, l < types.length) :
    items.mapM (localAt types) = .ok (items.map (localExpr types)) := by
  refine mapM_eq_ok_iff.mpr (List.forall₂_map_right_iff.mpr (List.forall₂_same.mpr ?_))
  exact fun l hl => localAt_eq (h l hl)

/-- The locals that an expression reads are all that is looked up for its binding, besides the local
that is bound. -/
theorem bindingAt_eq {b : Binding} (hl : l < types.length)
    (h : ∀ m ∈ b.expr.usedLocals, m < types.length) :
    bindingAt types l b = (bindingStmts types l b).mapError .error := by
  obtain ⟨type, e⟩ := b
  simp only [Erased.Expr.usedLocals] at h
  -- each operand is looked up where the emitter takes its type, and the look-up finds it
  cases e with
  | intLit | invokeWrapper => rfl
  | primLit p =>
    simp only [bindingAt, bindingStmts]
    cases primExpr l p <;> rfl
  | sequenceLit element items =>
    simp only [bindingAt, bindingStmts]
    cases items.mapM (boxedExpr l) <;> rfl
  | var source =>
    simp only [bindingAt, bindingStmts, localAt_eq (h source (by simp))]
    split <;> rfl
  | tuple items => simp only [bindingAt, bindingStmts, mapM_localAt_eq h]; rfl
  | newArray k size => simp only [bindingAt, bindingStmts, indexAt_eq (h size (by simp))]; rfl
  | fillArray k size element =>
    simp only [bindingAt, bindingStmts, indexAt_eq (h size (by simp)), localAt_eq hl,
      localAt_eq (h element (by simp))]
    rfl
  | load k array index =>
    simp only [bindingAt, bindingStmts, localAt_eq (h array (by simp)),
      indexAt_eq (h index (by simp))]
    rfl
  | store k array index value =>
    simp only [bindingAt, bindingStmts, localAt_eq (h array (by simp)),
      indexAt_eq (h index (by simp)), localAt_eq (h value (by simp))]
    rfl
  | arrayLength k array =>
    simp only [bindingAt, bindingStmts, lengthAt_eq (h array (by simp))]
    rfl
  | arrayCopy k source i destination j n =>
    have hi : ∀ m ∈ i.usedLocals, m < types.length := fun m hm => h m (by simp [hm])
    have hj : ∀ m ∈ j.usedLocals, m < types.length := fun m hm => h m (by simp [hm])
    have hn : ∀ m ∈ n.usedLocals, m < types.length := fun m hm => h m (by simp [hm])
    have hsource := h source (by simp)
    have hdestination := h destination (by simp)
    simp only [bindingAt, bindingStmts, copyLengthAt_eq hsource hi hdestination hj hn,
      localAt_eq hsource, localAt_eq hdestination, operandAt_eq hi, operandAt_eq hj]
    rfl
  | wrapAdapter k array => simp only [bindingAt, bindingStmts, localAt_eq (h array (by simp))]; rfl
  | copyFromGeneric k sequence | genericSize sequence =>
    simp only [bindingAt, bindingStmts, sequenceAt_eq (h sequence (by simp))]
    rfl
  | genericGet sequence index =>
    simp only [bindingAt, bindingStmts, sequenceAt_eq (h sequence (by simp)),
      localAt_eq (h index (by simp))]
    rfl
  | genericSet sequence index value =>
    simp only [bindingAt, bindingStmts, sequenceAt_eq (h sequence (by simp)),
      localAt_eq (h index (by simp)), localAt_eq (h value (by simp))]
    rfl
  | typeTest value d => simp only [bindingAt, bindingStmts, localAt_eq (h value (by simp))]; rfl
  | typeOf value => simp only [bindingAt, bindingStmts, localAt_eq (h value (by simp))]; rfl

end

/-! ## Methods -/

/-- The check of scopes keeps the look-ups for a body within the bindings. -/
theorem bodyAt_eq {types : List Erased.Ty} (last : List Stmt) {l : Nat} {rest : List Binding}
    (hlength : l + rest.length ≤ types.length) (hunbound : unbound? l rest = none) :
    bodyAt types (.ok last) l rest = (bodyStmts types last l rest).mapError .error := by
  induction rest generalizing l with
  | nil => rfl
  | cons b rest ih =>
    rw [List.length_cons] at hlength
    obtain ⟨hreads, hunboundRest⟩ := unbound?_cons_eq_none hunbound
    -- what is bound before the binding is bound in the program
    have hused : ∀ m ∈ b.expr.usedLocals, m < types.length :=
      fun m hm => Nat.lt_trans (hreads m hm) (by omega)
    have hl : l < types.length := by omega
    have hrest := ih (by omega) hunboundRest
    rw [bodyAt, bodyStmts, bindingAt_eq hl hused, hrest, Check.mapError_bind]
    refine congrArg _ (funext fun stmts => ?_)
    cases diverges b with
    | true => rfl
    | false =>
      rw [if_neg Bool.false_ne_true, if_neg Bool.false_ne_true, Check.mapError_bind]
      rfl

theorem returnAt_eq {types : List Erased.Ty} {l : Local} {type : Erased.Ty}
    (h : types[l]? = some type) :
    returnAt types l =
      .ok (if type = .unit then [] else [.ret (some (localExpr types l))]) := by
  have hl : l < types.length := (List.getElem?_eq_some_iff.mp h).1
  rw [returnAt, typeAt_eq h, localAt_eq hl, Check.ok_bind]
  split <;> rfl

/-- No look-up for a method is out of range, whatever locals the program mentions. -/
theorem toMethodChecked_eq (p : Program) : p.toMethodChecked = p.toMethod.mapError .error := by
  rw [Program.toMethodChecked, Program.toMethod, Check.mapError_bind]
  cases hscope : checkScoping p with
  | error error => rfl
  | ok type =>
    obtain ⟨hunbound, b, hb, hbtype⟩ := checkScoping_eq_ok.mp hscope
    -- the result is bound, so the look-up for the return is in range as well
    have htype : (p.bindings.map Binding.type)[p.result]? = some type := by
      rw [List.getElem?_map, hb, Option.map_some, hbtype]
    have hbody := bodyAt_eq
      (if type = .unit then [] else
        [.ret (some (localExpr (p.bindings.map Binding.type) p.result))])
      (by simp : 0 + p.bindings.length ≤ (p.bindings.map Binding.type).length) hunbound
    simp only [returnAt_eq htype, hbody, typeAt_eq htype, Check.mapError_bind]
    rfl

end ArrayBridge.Java
