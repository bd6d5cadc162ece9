import ArrayBridge.Erased.Value
import ArrayBridge.Proofs.Traversal

/-!
# Types of erased programs

What an expression demands of its operands, what type its value has, and what it means for a value
to inhabit a declared type. Object types are not told apart at run time: a value of one inhabits
them all, so `Ty.plain` forgets which object type a type mentions.

Main results:

* `Expr.snd_operands` — the demanding operands of an expression are the locals that it reads.
* `Value.inhabits_iff` — a value inhabits a type exactly if that is its own type, object types
  not being told apart.
* `Expr.type?_map_plain`, `Expr.head_type?_congr` — the type of a value depends on the types of the
  operands only as far as these are told apart.
-/

namespace ArrayBridge.Erased

/-! ## Forms of types -/

/-- The outermost form of a type. Neither object types nor tuple types are told apart. -/
inductive Head where
  | unit
  | integer
  | prim (kind : Kind)
  | array (kind : Kind)
  | object
  | descriptor
  | tuple
deriving DecidableEq, Repr

namespace Ty

/-- The outermost form of a type. -/
def head : Ty → Head
  | unit => .unit
  | integer => .integer
  | prim k => .prim k
  | array k => .array k
  | object _ => .object
  | descriptor => .descriptor
  | tuple _ => .tuple

mutual
/-- A type with every object type in it replaced by that of every value. -/
def plain : Ty → Ty
  | unit => unit
  | integer => integer
  | prim k => prim k
  | array k => array k
  | object _ => object .anything
  | descriptor => descriptor
  | tuple ts => tuple (plainAll ts)

/-- The types of a list, each with its object types replaced. -/
def plainAll : List Ty → List Ty
  | [] => []
  | t :: ts => plain t :: plainAll ts
end

/-- A list of types is taken one type at a time, as any list is. -/
@[simp] theorem plainAll_eq_map (ts : List Ty) : plainAll ts = ts.map plain := by
  induction ts with
  | nil => rfl
  | cons t ts ih => rw [plainAll, ih, List.map_cons]

/-- So is a list of types that are erased. -/
@[simp] theorem ofBridgeAll_eq_map (ts : List Bridge.Ty) : ofBridgeAll ts = ts.map ofBridge := by
  induction ts with
  | nil => rfl
  | cons t ts ih => rw [ofBridgeAll, ih, List.map_cons]

/-- Which object type a type mentions does not matter for its form. -/
@[simp] theorem head_plain (t : Ty) : t.plain.head = t.head := by
  cases t <;> rfl

mutual
/-- There is nothing left to forget once object types are not told apart. -/
@[simp] theorem plain_plain : (t : Ty) → t.plain.plain = t.plain
  | unit | integer | prim _ | array _ | object _ | descriptor => rfl
  | tuple ts => by
    rw [plain, plain, plainAll_plainAll ts]

/-- The same for the types of a list. -/
theorem plainAll_plainAll : (ts : List Ty) → plainAll (plainAll ts) = plainAll ts
  | [] => rfl
  | t :: ts => by
    rw [plainAll, plainAll, plain_plain t, plainAll_plainAll ts]
end

/-- Types that only differ in object types are of one form. -/
theorem head_eq_of_plain_eq {s t : Ty} (h : s.plain = t.plain) : s.head = t.head := by
  rw [← head_plain s, h, head_plain]

/-- The form of a type other than an object or a tuple says all about it. -/
theorem eq_unit_of_head {t : Ty} (h : t.head = .unit) : t = unit := by
  cases t with
  | unit => rfl
  | _ => cases h

/-- So does that of an integer, -/
theorem eq_integer_of_head {t : Ty} (h : t.head = .integer) : t = integer := by
  cases t with
  | integer => rfl
  | _ => cases h

/-- of a primitive type -/
theorem eq_prim_of_head {t : Ty} {k : Kind} (h : t.head = .prim k) : t = prim k := by
  cases t with
  | prim l =>
    injection h with hk
    rw [hk]
  | _ => cases h

/-- and of an array type, by its kind. -/
theorem eq_array_of_head {t : Ty} {k : Kind} (h : t.head = .array k) : t = array k := by
  cases t with
  | array l =>
    injection h with hk
    rw [hk]
  | _ => cases h

/-- That of an object type leaves its descriptor open. -/
theorem exists_object_of_head {t : Ty} (h : t.head = .object) : ∃ d, t = object d := by
  cases t with
  | object d => exact ⟨d, rfl⟩
  | _ => cases h

end Ty

/-! ## Types of values -/

namespace Value

/-- The outermost form of a value's type. -/
def head : Value → Head
  | unit => .unit
  | integer _ => .integer
  | prim p => .prim p.kind
  | array a => .array a.kind
  | sequence _ | boxed _ => .object
  | descriptor _ => .descriptor
  | tuple _ => .tuple

mutual
/-- The type of a value, its object types being that of every value. -/
def type : Value → Ty
  | unit => .unit
  | integer _ => .integer
  | prim p => .prim p.kind
  | array a => .array a.kind
  | sequence _ | boxed _ => .object .anything
  | descriptor _ => .descriptor
  | tuple vs => .tuple (typeAll vs)

/-- The types of a list of values. -/
def typeAll : List Value → List Ty
  | [] => []
  | v :: vs => type v :: typeAll vs
end

/-- The values of a list have their types one by one. -/
@[simp] theorem typeAll_eq_map (vs : List Value) : typeAll vs = vs.map type := by
  induction vs with
  | nil => rfl
  | cons v vs ih => rw [typeAll, ih, List.map_cons]

/-- A value is of the form of its type. -/
@[simp] theorem head_type (v : Value) : v.type.head = v.head := by
  cases v <;> rfl

/-! ### Values of a form -/

/-- There is one unit value. -/
theorem eq_unit_of_head {v : Value} (h : v.head = .unit) : v = unit := by
  cases v with
  | unit => rfl
  | _ => cases h

/-- A value of the form of an integer is one. -/
theorem exists_integer_of_head {v : Value} (h : v.head = .integer) : ∃ n, v = integer n := by
  cases v with
  | integer n => exact ⟨n, rfl⟩
  | _ => cases h

/-- A value of the form of a primitive value is one, and of the same kind. -/
theorem exists_prim_of_head {v : Value} {k : Kind} (h : v.head = .prim k) :
    ∃ p, v = prim p ∧ p.kind = k := by
  cases v with
  | prim p =>
    injection h with hk
    exact ⟨p, rfl, hk⟩
  | _ => cases h

/-- A value of the form of an array is one, and of the same kind. -/
theorem exists_array_of_head {v : Value} {k : Kind} (h : v.head = .array k) :
    ∃ a, v = array a ∧ a.kind = k := by
  cases v with
  | array a =>
    injection h with hk
    exact ⟨a, rfl, hk⟩
  | _ => cases h

/-! ### Inhabitants -/

mutual
/-- Whether a value inhabits a declared type. An object is a generic sequence or a boxed element;
a tuple has one item for each type, which inhabits it. -/
def Inhabits : Value → Ty → Prop
  | unit, .unit => True
  | integer _, .integer => True
  | prim p, .prim k => p.kind = k
  | array a, .array k => a.kind = k
  | sequence _, .object _ => True
  | boxed _, .object _ => True
  | descriptor _, .descriptor => True
  | tuple vs, .tuple ts => InhabitAll vs ts
  | _, _ => False

/-- Whether the values of a list inhabit the types of another, one by one. -/
def InhabitAll : List Value → List Ty → Prop
  | [], [] => True
  | v :: vs, t :: ts => Inhabits v t ∧ InhabitAll vs ts
  | _, _ => False
end

mutual
/-- A value inhabits a type exactly if that is its own, where object types are not told apart. By
recursion on the value: only tuples have parts. -/
theorem inhabits_iff : (v : Value) → (t : Ty) → (v.Inhabits t ↔ v.type = t.plain)
  | unit, t => by cases t <;> simp [Inhabits, type, Ty.plain]
  | integer _, t => by cases t <;> simp [Inhabits, type, Ty.plain]
  | prim _, t => by cases t <;> simp [Inhabits, type, Ty.plain]
  | array _, t => by cases t <;> simp [Inhabits, type, Ty.plain]
  | sequence _, t => by cases t <;> simp [Inhabits, type, Ty.plain]
  | boxed _, t => by cases t <;> simp [Inhabits, type, Ty.plain]
  | descriptor _, t => by cases t <;> simp [Inhabits, type, Ty.plain]
  | tuple vs, t => by
    cases t with
    | tuple ts =>
      -- two tuple types are one if their items are
      rw [Inhabits, type, Ty.plain, Ty.tuple.injEq]
      exact inhabitAll_iff vs ts
    | _ => simp [Inhabits, type, Ty.plain]

/-- The same for the values of a list, which has to be as long as that of the types. -/
theorem inhabitAll_iff :
    (vs : List Value) → (ts : List Ty) → (InhabitAll vs ts ↔ typeAll vs = Ty.plainAll ts)
  | [], ts => by cases ts <;> simp [InhabitAll]
  | v :: vs, [] => by simp [InhabitAll]
  | v :: vs, t :: ts => by
    rw [InhabitAll, typeAll, Ty.plainAll, List.cons.injEq, inhabits_iff v t, inhabitAll_iff vs ts]
end

mutual
/-- The type of a value mentions no object type but that of every value. -/
@[simp] theorem plain_type : (v : Value) → v.type.plain = v.type
  | unit | integer _ | prim _ | array _ | sequence _ | boxed _ | descriptor _ => rfl
  | tuple vs => by
    rw [type, Ty.plain, plainAll_typeAll vs]

/-- The same for the types of a list of values. -/
theorem plainAll_typeAll : (vs : List Value) → Ty.plainAll (typeAll vs) = typeAll vs
  | [] => rfl
  | v :: vs => by
    rw [typeAll, Ty.plainAll, plain_type v, plainAll_typeAll vs]
end

end Value

/-! ## Operands -/

/-- What an expression does with an operand. -/
inductive Role where
  /-- The value is passed on as it is. -/
  | value
  | integer
  | prim (kind : Kind)
  | array (kind : Kind)
  | sequence
  /-- The value is stored in a generic sequence. -/
  | element
  /-- The value is asked for its own type. -/
  | reified
deriving DecidableEq, Repr

/-- Whether a local of the given form may play a role. A generic sequence is an object, an element
is a primitive value or an object, and only a native array does not know its own type. -/
def Role.Admits : Role → Head → Prop
  | value, _ => True
  | integer, h => h = .integer
  | prim k, h => h = .prim k
  | array k, h => h = .array k
  | sequence, h => h = .object
  | element, h => h = .object ∨ ∃ k, h = .prim k
  | reified, h => ∀ k, h ≠ .array k

/-- The local that an offset or a length reads. -/
def Operand.operands (o : Operand) : List (Role × Local) := o.usedLocals.map (.integer, ·)

/-- The local that the length of a copy reads. -/
def CopyLength.operands (n : CopyLength) : List (Role × Local) := n.usedLocals.map (.integer, ·)

namespace Expr

/-- The operands of an expression and their roles, in order. -/
def operands : Expr → List (Role × Local)
  | intLit _ | primLit _ | invokeWrapper .. | sequenceLit .. => []
  | var l => [(.value, l)]
  | tuple items => items.map (.value, ·)
  | newArray _ size => [(.integer, size)]
  | fillArray k size element => [(.integer, size), (.prim k, element)]
  | load k array index => [(.array k, array), (.integer, index)]
  | store k array index value => [(.array k, array), (.integer, index), (.prim k, value)]
  | arrayLength k array | wrapAdapter k array => [(.array k, array)]
  | arrayCopy k source sourceOffset destination destinationOffset length =>
    (.array k, source) :: sourceOffset.operands ++ (.array k, destination) ::
      destinationOffset.operands ++ length.operands
  | copyFromGeneric _ sequence | genericSize sequence => [(.sequence, sequence)]
  | genericGet sequence index => [(.sequence, sequence), (.integer, index)]
  | genericSet sequence index value =>
    [(.sequence, sequence), (.integer, index), (.element, value)]
  | typeTest value _ | typeOf value => [(.reified, value)]

/-- The operands that have a role are the locals that are read. -/
theorem snd_operands (e : Expr) : e.operands.map Prod.snd = e.usedLocals := by
  cases e <;>
    simp [operands, usedLocals, Operand.operands, CopyLength.operands, Function.comp_def]

/-- Whether every operand is declared, at a type whose form its role admits. -/
def OperandsTyped (types : List Ty) (e : Expr) : Prop :=
  ∀ role l, (role, l) ∈ e.operands → ∃ t, types[l]? = some t ∧ role.Admits t.head

/-! ## Types of expressions -/

/-- The type of the value of an expression, given the types of the locals. A wrapper member that
is reached at run time has no value. -/
def type? (types : List Ty) : Expr → Option Ty
  | var l => types[l]?
  | intLit _ | arrayLength .. | genericSize _ => some .integer
  | primLit p => some (.prim p.kind)
  | tuple items => .tuple <$> items.mapM (types[·]?)
  | newArray k _ | fillArray k _ _ | copyFromGeneric k _ => some (.array k)
  | load k _ _ => some (.prim k)
  | store .. | arrayCopy .. | genericSet .. => some .unit
  | wrapAdapter k _ => some (.object (.genericView k))
  | invokeWrapper .. => none
  | genericGet .. => some (.object .anything)
  | typeTest .. => some (.prim .boolean)
  | typeOf _ => some .descriptor
  | sequenceLit element _ => some (.object (.sequenceOf element))

/-- The type of a value, object types not being told apart, depends on the types of the operands
in the same way. -/
theorem type?_map_plain (types : List Ty) (e : Expr) :
    (e.type? (types.map Ty.plain)).map Ty.plain = (e.type? types).map Ty.plain := by
  cases e with
  | var l =>
    rw [type?, type?, List.getElem?_map, Option.map_map]
    congr 1
    exact funext Ty.plain_plain
  | tuple items =>
    rw [type?, type?, mapM_getElem?_map]
    cases items.mapM (types[·]?) with
    | none => rfl
    | some ts =>
      -- the items of a tuple have been made plain already
      show some ((Ty.tuple (ts.map Ty.plain)).plain) = some (Ty.tuple ts).plain
      rw [← Ty.plainAll_eq_map, ← Ty.plain, Ty.plain_plain]
  | _ => rfl

/-- The form of a value depends only on the forms of the operands. -/
theorem head_type?_congr {types types' : List Ty} (h : types.map Ty.head = types'.map Ty.head)
    (e : Expr) : (e.type? types).map Ty.head = (e.type? types').map Ty.head := by
  cases e with
  | var l => rw [type?, type?, ← List.getElem?_map, h, List.getElem?_map]
  | tuple items =>
    -- only whether the items are bound matters
    have htuple : ∀ ts : List Ty, ((tuple items).type? ts).map Ty.head =
        (items.mapM ((ts.map Ty.head)[·]?)).map fun _ => .tuple := by
      intro ts
      rw [mapM_getElem?_map, type?]
      cases items.mapM (ts[·]?) <;> rfl
    rw [htuple, htuple, h]
  | _ => rfl

/-- Whether an expression puts a tuple together. -/
def IsTuple : Expr → Prop
  | tuple _ => True
  | _ => False

/-- Whether an expression computes on native arrays alone. The members of wrappers are among these:
they do nothing but fail. -/
def IsNative : Expr → Prop
  | var _ | intLit _ | primLit _ | tuple _ | newArray .. | fillArray .. | load .. | store ..
  | arrayLength .. | arrayCopy .. | invokeWrapper .. => True
  | _ => False

end Expr

end ArrayBridge.Erased
