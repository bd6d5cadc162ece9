import ArrayBridge.Java.Method
import ArrayBridge.Proofs.Erasure.Placing

/-!
# Erased programs are well scoped

Every local that an erased program reads is bound strictly before it is read, at a type that the
operation works on. The local numbers of a bridge program are arbitrary, and so are the types that
it declares its tuples at, so nothing is assumed of it but that it is erased.

Main results:

* `Expr.operandsDeclared_of_operandsTyped` — operands whose types have the forms that their roles
  admit are declared as the operation demands.
* `wellScoped_of_erase` — erased programs are well scoped.
* `WellScoped.exists_checkScoping_eq_ok` — the check of scopes before Java is emitted finds nothing
  in such a program.
-/

namespace ArrayBridge

namespace Erased

/-! ## What operations demand of declared types -/

/-- Whether the operands of an expression are declared at types that it works on, given the types
of the locals declared so far. -/
def Expr.OperandsDeclared (types : List Ty) : Expr → Prop
  | newArray _ size => types[size]? = some .integer
  | fillArray k size element =>
    types[size]? = some .integer ∧ types[element]? = some (.prim k)
  | load k array index => types[array]? = some (.array k) ∧ types[index]? = some .integer
  | store k array index value =>
    types[array]? = some (.array k) ∧ types[index]? = some .integer ∧
      types[value]? = some (.prim k)
  | arrayLength k array | wrapAdapter k array => types[array]? = some (.array k)
  | arrayCopy k source sourceOffset destination destinationOffset length =>
    types[source]? = some (.array k) ∧ types[destination]? = some (.array k) ∧
      ∀ l ∈ sourceOffset.usedLocals ++ destinationOffset.usedLocals ++ length.usedLocals,
        types[l]? = some .integer
  | copyFromGeneric _ sequence | genericSize sequence => ∃ d, types[sequence]? = some (.object d)
  | genericGet sequence index =>
    (∃ d, types[sequence]? = some (.object d)) ∧ types[index]? = some .integer
  | genericSet sequence index value =>
    (∃ d, types[sequence]? = some (.object d)) ∧ types[index]? = some .integer ∧
      ((∃ d, types[value]? = some (.object d)) ∨ ∃ k, types[value]? = some (.prim k))
  | typeTest value _ | typeOf value => ∀ k, types[value]? ≠ some (.array k)
  | var _ | intLit _ | primLit _ | tuple _ | invokeWrapper .. | sequenceLit .. => True

/-- Whether every local that a program reads is bound strictly before, at a type that its uses work
on, and the result is bound. -/
structure Program.WellScoped (e : Program) : Prop where
  reads : EachBinding (fun types b => ∀ l ∈ b.expr.usedLocals, l < types.length) e.bindings
  operands : EachBinding (fun types b => b.expr.OperandsDeclared types) e.bindings
  result : e.result < e.bindings.length

/-! ## Typed operands are declared so -/

namespace Expr

variable {types : List Ty} {e : Expr} {l : Local}

/-- What the types say of an operand, role by role: an integer, -/
theorem OperandsTyped.integer (h : e.OperandsTyped types) (hl : (.integer, l) ∈ e.operands) :
    types[l]? = some .integer := by
  obtain ⟨t, ht, hadm⟩ := h _ _ hl
  rw [ht, Ty.eq_integer_of_head hadm]

/-- a primitive value of the kind, -/
theorem OperandsTyped.prim {k : Kind} (h : e.OperandsTyped types)
    (hl : (.prim k, l) ∈ e.operands) : types[l]? = some (.prim k) := by
  obtain ⟨t, ht, hadm⟩ := h _ _ hl
  rw [ht, Ty.eq_prim_of_head hadm]

/-- an array of the kind, -/
theorem OperandsTyped.array {k : Kind} (h : e.OperandsTyped types)
    (hl : (.array k, l) ∈ e.operands) : types[l]? = some (.array k) := by
  obtain ⟨t, ht, hadm⟩ := h _ _ hl
  rw [ht, Ty.eq_array_of_head hadm]

/-- an object, -/
theorem OperandsTyped.sequence (h : e.OperandsTyped types) (hl : (.sequence, l) ∈ e.operands) :
    ∃ d, types[l]? = some (.object d) := by
  obtain ⟨t, ht, hadm⟩ := h _ _ hl
  obtain ⟨d, rfl⟩ := Ty.exists_object_of_head hadm
  exact ⟨d, ht⟩

/-- an object or a primitive value, -/
theorem OperandsTyped.element (h : e.OperandsTyped types) (hl : (.element, l) ∈ e.operands) :
    (∃ d, types[l]? = some (.object d)) ∨ ∃ k, types[l]? = some (.prim k) := by
  obtain ⟨t, ht, hadm⟩ := h _ _ hl
  rcases hadm with hobject | ⟨k, hprim⟩
  · obtain ⟨d, rfl⟩ := Ty.exists_object_of_head hobject
    exact .inl ⟨d, ht⟩
  · exact .inr ⟨k, by rw [ht, Ty.eq_prim_of_head hprim]⟩

/-- or anything but a native array. -/
theorem OperandsTyped.reified (h : e.OperandsTyped types) (hl : (.reified, l) ∈ e.operands)
    (k : Kind) : types[l]? ≠ some (.array k) := by
  obtain ⟨t, ht, hadm⟩ := h _ _ hl
  intro harray
  rw [ht] at harray
  obtain rfl := Option.some.inj harray
  exact hadm k rfl

/-- Locals whose uses are typed are bound. -/
theorem OperandsTyped.lt_length (h : e.OperandsTyped types) (hl : l ∈ e.usedLocals) :
    l < types.length := by
  rw [← snd_operands, List.mem_map] at hl
  obtain ⟨⟨role, l⟩, hmem, rfl⟩ := hl
  obtain ⟨t, ht, -⟩ := h role l hmem
  exact (List.getElem?_eq_some_iff.mp ht).1

/-- So in bindings whose operands are typed, a local is read only by what comes after it. -/
theorem lt_of_operandsTyped {bs : List Binding} {b : Binding} {i : Local}
    (h : EachBinding (fun types b => b.expr.OperandsTyped types) bs) (hb : bs[i]? = some b)
    (hl : l ∈ b.expr.usedLocals) : l < i := by
  obtain ⟨before, after, heq, rfl⟩ := exists_append_of_getElem? hb
  have hlt := (h before b after heq).lt_length hl
  rwa [List.length_map] at hlt

/-- Operands whose types have the forms that their roles admit are declared as the operation
demands. -/
theorem operandsDeclared_of_operandsTyped (h : e.OperandsTyped types) :
    e.OperandsDeclared types := by
  -- the roles are listed in the order of the operands
  cases e with
  | var | intLit | primLit | tuple | invokeWrapper | sequenceLit => trivial
  | newArray => exact h.integer (by simp [operands])
  | fillArray => exact ⟨h.integer (by simp [operands]), h.prim (by simp [operands])⟩
  | load => exact ⟨h.array (by simp [operands]), h.integer (by simp [operands])⟩
  | store =>
    exact ⟨h.array (by simp [operands]), h.integer (by simp [operands]),
      h.prim (by simp [operands])⟩
  | arrayLength | wrapAdapter => exact h.array (by simp [operands])
  | arrayCopy k source sourceOffset destination destinationOffset length =>
    refine ⟨h.array (by simp [operands]), h.array (by simp [operands]), fun l hl => ?_⟩
    refine h.integer ?_
    simp only [List.mem_append] at hl
    simp only [operands, Operand.operands, CopyLength.operands, List.cons_append, List.mem_cons,
      List.mem_append, List.mem_map, Prod.mk.injEq, reduceCtorEq, false_and, true_and,
      exists_eq_right, false_or]
    exact hl
  | copyFromGeneric | genericSize => exact h.sequence (by simp [operands])
  | genericGet => exact ⟨h.sequence (by simp [operands]), h.integer (by simp [operands])⟩
  | genericSet =>
    exact ⟨h.sequence (by simp [operands]), h.integer (by simp [operands]),
      h.element (by simp [operands])⟩
  | typeTest | typeOf => exact h.reified (by simp [operands])

end Expr

/-! ## Well scoped programs -/

namespace Program

/-- No binding reads a local that is not bound before it. -/
private theorem unbound?_eq_none (before rest : List Binding)
    (h : EachBinding (fun types b => ∀ l ∈ b.expr.usedLocals, l < types.length)
      (before ++ rest)) : Java.unbound? before.length rest = none := by
  induction rest generalizing before with
  | nil => rfl
  | cons b rest ih =>
    -- every local that the binding reads is one of those bound before it
    have hfind : b.expr.usedLocals.find? (before.length ≤ ·) = none := by
      refine List.find?_eq_none.mpr fun l hl => ?_
      have hlt : l < (before.map Binding.type).length := h before b rest rfl l hl
      rw [List.length_map] at hlt
      simpa using hlt
    have hrest := ih (before ++ [b]) (by simpa using h)
    rw [List.length_append, List.length_singleton] at hrest
    rw [Java.unbound?, hfind]
    exact hrest

/-- The check of scopes before Java is emitted finds nothing in a well scoped program. -/
theorem WellScoped.exists_checkScoping_eq_ok {e : Program} (h : e.WellScoped) :
    ∃ t, Java.checkScoping e = .ok t := by
  have hreads : Java.unbound? 0 e.bindings = none := unbound?_eq_none [] e.bindings h.reads
  rw [Java.checkScoping, hreads, List.getElem?_eq_getElem h.result]
  exact ⟨_, rfl⟩

end Program

end Erased

/-! ## Erased programs -/

namespace Bridge.Program

variable {policy : AdapterPolicy} {p : Bridge.Program} {e : Erased.Program}

/-- An erased program is well scoped, whatever locals the bridge program mentions. -/
theorem wellScoped_of_erase (h : p.erase policy = .ok e) : e.WellScoped := by
  -- whatever tuples are declared as, operands are typed
  have htyped := Erasure.typed_up_to_tuples_of_erase h
  exact {
    reads := htyped.operands.mono fun _ _ hb _ hl => hb.lt_length hl
    operands := htyped.operands.mono fun _ _ => Erased.Expr.operandsDeclared_of_operandsTyped
    result := htyped.result }

/-- A view is taken of a fresh array, and an item read through another view of it: the locals of the
erased program are numbered anew, and are bound before they are read. -/
theorem wellScoped_of_erase_views :
    ∃ (p : Bridge.Program) (e : Erased.Program),
      p.erase .perUse = .ok e ∧ e.WellScoped ∧ p.bindings.length = 4 ∧ e.result = 4 ∧
        e.bindings[4]? = some ⟨.object .anything, .genericGet 3 0⟩ := by
  let p : Bridge.Program :=
    ⟨[⟨.integer, .intLit 1⟩, ⟨.wrapper .int, .call .int (.construct 0 none)⟩,
      ⟨.object .anything, .var 1⟩, ⟨.object .anything, .genericGet 1 0⟩], 3⟩
  let e : Erased.Program :=
    ⟨[⟨.integer, .intLit 1⟩, ⟨.array .int, .newArray .int 0⟩,
      ⟨.object (.genericView .int), .wrapAdapter .int 1⟩,
      ⟨.object (.genericView .int), .wrapAdapter .int 1⟩,
      ⟨.object .anything, .genericGet 3 0⟩], 4⟩
  have herase : p.erase .perUse = .ok e := rfl
  exact ⟨p, e, herase, wellScoped_of_erase herase, rfl, rfl, rfl⟩

end Bridge.Program

end ArrayBridge
