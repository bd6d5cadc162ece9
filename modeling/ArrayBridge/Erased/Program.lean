import ArrayBridge.Bridge.Program

/-!
# Erased programs

Programs without wrappers: every array is a native array, and wherever a generic value is
demanded of an array an adapter is made for it.

* `Ty.ofBridge` is the type that a declared type becomes.
* `Expr.usedLocals` lists the locals that an expression reads, in the order of its operands.
-/

namespace ArrayBridge.Erased

/-- The declared type of a binding. -/
inductive Ty where
  | unit
  | integer
  | prim (kind : Kind)
  | array (kind : Kind)
  | object (descriptor : Descriptor)
  | descriptor
  | tuple (items : List Ty)

namespace Ty

instance : Inhabited Ty := ⟨unit⟩

mutual
/-- Structural equality. -/
def beq : Ty → Ty → Bool
  | unit, unit => true
  | integer, integer => true
  | prim k, prim l => k = l
  | array k, array l => k = l
  | object d, object e => d = e
  | descriptor, descriptor => true
  | tuple ss, tuple ts => beqAll ss ts
  | _, _ => false

/-- Structural equality of lists of types. -/
def beqAll : List Ty → List Ty → Bool
  | [], [] => true
  | s :: ss, t :: ts => beq s t && beqAll ss ts
  | _, _ => false
end

mutual
theorem beq_iff_eq : (s t : Ty) → (s.beq t = true ↔ s = t)
  | unit, t => by cases t <;> simp [beq]
  | integer, t => by cases t <;> simp [beq]
  | prim k, t => by cases t <;> simp [beq]
  | array k, t => by cases t <;> simp [beq]
  | object d, t => by cases t <;> simp [beq]
  | descriptor, t => by cases t <;> simp [beq]
  | tuple ss, t => by cases t <;> simp [beq, beqAll_iff_eq ss]

theorem beqAll_iff_eq : (ss ts : List Ty) → (beqAll ss ts = true ↔ ss = ts)
  | [], ts => by cases ts <;> simp [beqAll]
  | s :: ss, ts => by cases ts <;> simp [beqAll, beq_iff_eq s, beqAll_iff_eq ss]
end

instance : DecidableEq Ty := fun s t => decidable_of_iff _ (beq_iff_eq s t)

mutual
/-- The text of a type. -/
def text : Ty → String
  | unit => "Unit"
  | integer => "Integer"
  | prim k => k.nativeName
  | array k => k.nativeName ++ "[]"
  | object d => d.text
  | descriptor => "TypeDescriptor"
  | tuple [] => "()"
  | tuple (t :: ts) => "(" ++ text t ++ textRest ts

/-- The items after the first, and the closing bracket. -/
def textRest : List Ty → String
  | [] => ")"
  | t :: ts => ", " ++ text t ++ textRest ts
end

mutual
/-- The type that a declared type becomes: wrappers become native arrays. -/
def ofBridge : Bridge.Ty → Ty
  | .unit => unit
  | .integer => integer
  | .prim k => prim k
  | .wrapper k => array k
  | .object d => object d
  | .descriptor => descriptor
  | .tuple ts => tuple (ofBridgeAll ts)

/-- The types that a list of declared types becomes. -/
def ofBridgeAll : List Bridge.Ty → List Ty
  | [] => []
  | t :: ts => ofBridge t :: ofBridgeAll ts
end

end Ty

/-- An offset or a length: the value of a local, or a constant. -/
inductive Operand where
  | read (source : Local)
  | const (value : Int64)
deriving DecidableEq, Repr

/-- The local that an operand reads. -/
def Operand.usedLocals : Operand → List Local
  | read l => [l]
  | const _ => []

/-- How many elements are copied. -/
inductive CopyLength where
  | explicit (length : Operand)
  /-- As many as fit in both arrays past their offsets. -/
  | remaining
deriving DecidableEq, Repr

/-- The local that a length reads. -/
def CopyLength.usedLocals : CopyLength → List Local
  | explicit n => n.usedLocals
  | remaining => []

/-- What a binding computes. -/
inductive Expr where
  | var (source : Local)
  | intLit (value : Int64)
  | primLit (value : Prim)
  | tuple (items : List Local)
  /-- A fresh array of zero elements. -/
  | newArray (kind : Kind) (size : Local)
  /-- A fresh array of copies of an element. -/
  | fillArray (kind : Kind) (size element : Local)
  | load (kind : Kind) (array index : Local)
  | store (kind : Kind) (array index value : Local)
  | arrayLength (kind : Kind) (array : Local)
  | arrayCopy (kind : Kind) (source : Local) (sourceOffset : Operand)
      (destination : Local) (destinationOffset : Operand) (length : CopyLength)
  /-- A generic sequence that shares the array's storage. -/
  | wrapAdapter (kind : Kind) (array : Local)
  /-- A fresh array holding the items of a generic sequence. -/
  | copyFromGeneric (kind : Kind) (sequence : Local)
  /-- A wrapper member that is reached at run time. -/
  | invokeWrapper (kind : Kind) (operation : Operation)
  | genericSize (sequence : Local)
  | genericGet (sequence index : Local)
  | genericSet (sequence index value : Local)
  | typeTest (value : Local) (descriptor : Descriptor)
  | typeOf (value : Local)
  | sequenceLit (element : Descriptor) (items : List Boxed)
deriving DecidableEq

/-- The locals that an expression reads, in the order of its operands. -/
def Expr.usedLocals : Expr → List Local
  | intLit _ | primLit _ | invokeWrapper .. | sequenceLit .. => []
  | tuple items => items
  | var l | newArray _ l | arrayLength _ l | wrapAdapter _ l | copyFromGeneric _ l
  | genericSize l | typeTest l _ | typeOf l => [l]
  | fillArray _ a b | load _ a b | genericGet a b => [a, b]
  | store _ a b c | genericSet a b c => [a, b, c]
  | arrayCopy _ source sourceOffset destination destinationOffset length =>
    source :: sourceOffset.usedLocals ++ destination :: destinationOffset.usedLocals ++
      length.usedLocals

/-- An expression and the type that it is bound at. -/
structure Binding where
  type : Ty
  expr : Expr
deriving DecidableEq

/-- Bindings in order, and the local that is returned. -/
structure Program where
  bindings : List Binding
  result : Local
deriving DecidableEq

end ArrayBridge.Erased
