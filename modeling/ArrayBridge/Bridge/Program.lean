import ArrayBridge.Descriptor
import ArrayBridge.Wrapper.Signature

/-!
# Bridge programs

Typed programs in which arrays still appear as wrappers and their members as calls. A program is
a sequence of bindings, each of which may read the locals bound before it, and the local that it
returns. An argument that the call site left out is `none`.
-/

namespace ArrayBridge

/-- A binding is read by its place in the program. -/
abbrev Local := Nat

namespace Bridge

/-- The declared type of a binding. -/
inductive Ty where
  | unit
  /-- Indices, sizes and offsets. -/
  | integer
  | prim (kind : Kind)
  /-- An array wrapper, such as `IntArray`. -/
  | wrapper (kind : Kind)
  /-- A reference type. -/
  | object (descriptor : Descriptor)
  | descriptor
  | tuple (items : List Ty)

namespace Ty

instance : Inhabited Ty := ⟨unit⟩

mutual
/-- Structural equality. -/
def beq : Ty → Ty → Bool
  | unit, unit => true
  | integer, integer => true
  | prim k, prim l => k = l
  | wrapper k, wrapper l => k = l
  | object d, object e => d = e
  | descriptor, descriptor => true
  | tuple ss, tuple ts => beqAll ss ts
  | _, _ => false

/-- Structural equality of lists of types. -/
def beqAll : List Ty → List Ty → Bool
  | [], [] => true
  | s :: ss, t :: ts => beq s t && beqAll ss ts
  | _, _ => false
end

mutual
theorem beq_iff_eq : (s t : Ty) → (s.beq t = true ↔ s = t)
  | unit, t => by cases t <;> simp [beq]
  | integer, t => by cases t <;> simp [beq]
  | prim k, t => by cases t <;> simp [beq]
  | wrapper k, t => by cases t <;> simp [beq]
  | object d, t => by cases t <;> simp [beq]
  | descriptor, t => by cases t <;> simp [beq]
  | tuple ss, t => by cases t <;> simp [beq, beqAll_iff_eq ss]

theorem beqAll_iff_eq : (ss ts : List Ty) → (beqAll ss ts = true ↔ ss = ts)
  | [], ts => by cases ts <;> simp [beqAll]
  | s :: ss, ts => by cases ts <;> simp [beqAll, beq_iff_eq s, beqAll_iff_eq ss]
end

instance : DecidableEq Ty := fun s t => decidable_of_iff _ (beq_iff_eq s t)

mutual
/-- The text of a type. -/
def text : Ty → String
  | unit => "Unit"
  | integer => "Integer"
  | prim k => k.nativeName
  | wrapper k => k.wrapperName
  | object d => d.text
  | descriptor => "TypeDescriptor"
  | tuple [] => "()"
  | tuple (t :: ts) => "(" ++ text t ++ textRest ts

/-- The items after the first, and the closing bracket. -/
def textRest : List Ty → String
  | [] => ")"
  | t :: ts => ", " ++ text t ++ textRest ts
end

/-- Whether the type is a reference type. -/
def isObject : Ty → Bool
  | object _ => true
  | _ => false

end Ty

/-- A call to a member of an array wrapper. -/
inductive Call where
  | construct (size : Local) (element : Option Local)
  | get (array index : Local)
  | set (array index value : Local)
  | length (array : Local)
  | copyTo (source destination : Local) (sourceOffset destinationOffset length : Option Local)
  | toGenericView (array : Local)
  | fromGenericView (sequence : Local)
deriving DecidableEq, Repr

/-- The member that is called. -/
def Call.operation : Call → Operation
  | construct .. => .construct
  | get .. => .get
  | set .. => .set
  | length .. => .length
  | copyTo .. => .copyTo
  | toGenericView .. => .toGenericView
  | fromGenericView .. => .fromGenericView

/-- What a binding computes. -/
inductive Expr where
  | var (source : Local)
  | intLit (value : Int64)
  | primLit (value : Prim)
  | tuple (items : List Local)
  /-- A call to a member of the wrapper of a kind. -/
  | call (kind : Kind) (call : Call)
  /-- A member that is looked up and invoked by reflection. -/
  | reflective (kind : Kind) (operation : Operation)
  | genericSize (sequence : Local)
  | genericGet (sequence index : Local)
  /-- The value is boxed on the way in. -/
  | genericSet (sequence index value : Local)
  /-- Whether a value is of a type. -/
  | typeTest (value : Local) (descriptor : Descriptor)
  /-- The type of a value. -/
  | typeOf (value : Local)
  /-- A sequence of boxed elements. -/
  | sequenceLit (element : Descriptor) (items : List Boxed)
deriving DecidableEq

/-- An expression and the type that it is bound at. -/
structure Binding where
  type : Ty
  expr : Expr
deriving DecidableEq

/-- Bindings in order, and the local that is returned. -/
structure Program where
  bindings : List Binding
  result : Local
deriving DecidableEq

end Bridge

end ArrayBridge
