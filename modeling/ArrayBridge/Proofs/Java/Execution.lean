import ArrayBridge.Java.Imports
import ArrayBridge.Proofs.Store.Action
import ArrayBridge.Proofs.Store.Elements
import Mathlib.Logic.Function.Basic

/-!
# Executing Java

What the statements of a method do, for the part of the language that computes on native arrays:
literals, variables, casts, arrays, assignments to items, wrapping arithmetic on `int` and the
methods of the class library that emitted code calls.

An execution either throws, is *stuck* where the rules of the language give no meaning (an unknown
variable, an operand of a wrong type, a statement behind one that always leaves), or comes to an
end. Everything outside the part that is covered is stuck as well, so what is proved to be executed
lies within it.

* `eval` evaluates an expression, operands first and from left to right.
* `exec` executes the statements of a body, `Method.run` a method without parameters.
-/

namespace ArrayBridge.Java

open Binary (Single Double)

/-! ## Values -/

/-- A value of a primitive type. A `char` is a UTF-16 unit. -/
inductive Scalar where
  | boolean (value : Bool)
  | short (value : Int16)
  | int (value : Int32)
  | long (value : Int64)
  | float (value : Single)
  | double (value : Double)
  | char (unit : UInt16)
  | byte (value : Int8)
deriving DecidableEq

/-- The type of a primitive value. -/
def Scalar.kind : Scalar → Kind
  | boolean _ => .boolean
  | short _ => .short
  | int _ => .int
  | long _ => .long
  | float _ => .float
  | double _ => .double
  | char _ => .char
  | byte _ => .byte

/-- The default value of each primitive type. -/
def Scalar.default : Kind → Scalar
  | .boolean => boolean false
  | .short => short 0
  | .int => int 0
  | .long => long 0
  | .float => float .zero
  | .double => double .zero
  | .char => char 0
  | .byte => byte 0

/-- A value: a primitive value, `null`, or a reference to an array. A primitive value among the
items of an array of objects is boxed, which leaves it as it is. -/
inductive Value where
  | null
  | scalar (value : Scalar)
  | array (place : Nat)
  | objects (place : Nat)
deriving DecidableEq

/-- An array of primitive values. -/
structure PrimArray where
  kind : Kind
  items : List Scalar
deriving DecidableEq

/-- The arrays that have been made: those of primitive values and those of objects, each in the
order in which they were made. -/
structure Heap where
  arrays : List PrimArray
  objects : List (List Value)

namespace Heap

/-- The heap without any array. -/
def empty : Heap := ⟨[], []⟩

/-- The heap with a further array of primitive values. -/
def addArray (h : Heap) (a : PrimArray) : Heap := { h with arrays := h.arrays ++ [a] }

/-- The heap with a further array of objects. -/
def addObjects (h : Heap) (items : List Value) : Heap :=
  { h with objects := h.objects ++ [items] }

/-- The heap in which an array of primitive values has other items. -/
def setItems (h : Heap) (place : Nat) (items : List Scalar) : Heap :=
  { h with arrays := h.arrays.modify place fun a => { a with items := items } }

end Heap

/-! ## Executions -/

/-- Why an execution does not come to an end of its own. -/
inductive Failure where
  /-- An exception of the named class. -/
  | thrown (exception : String)
  /-- The rules give no meaning. -/
  | stuck
deriving DecidableEq

/-- A computation on the heap. -/
abbrev Exec := EStateM Failure Heap

/-- The values of the variables in scope. -/
abbrev Frame := String → Option Value

section

variable {α : Type}

/-- Throws an exception of the named class. -/
def raise (exception : String) : Exec α := throw (.thrown exception)

/-- An execution without a meaning. -/
def stuck : Exec α := throw .stuck

end

/-- A result that is to be there. -/
def demand {α : Type} : Option α → Exec α
  | some a => return a
  | none => stuck

/-- An `int`. -/
def asInt : Value → Exec Int32
  | .scalar (.int n) => return n
  | _ => stuck

/-- The array of primitive values behind a reference, and its place. -/
def arrayAt : Value → Exec (Nat × PrimArray)
  | .array i => do
    -- references are only made together with their arrays, so this is one that is there
    let a ← demand (← get).arrays[i]?
    return (i, a)
  | .null => raise "NullPointerException"
  | _ => stuck

/-- The place of an item at an index. -/
def PrimArray.checkIndex (a : PrimArray) (index : Int32) : Exec Nat :=
  if 0 ≤ index.toInt ∧ index.toInt < a.items.length then return index.toInt.toNat
  else raise "ArrayIndexOutOfBoundsException"

/-! ### Operations -/

/-- A reference to a fresh array of default values. -/
def newArray (t : Ty) (size : Int32) : Exec Value :=
  match t with
  | .prim k =>
    if size < 0 then raise "NegativeArraySizeException"
    else do
      -- arrays are never dropped, so the next place is the number of arrays
      let place := (← get).arrays.length
      modify (·.addArray ⟨k, .replicate size.toInt.toNat (.default k)⟩)
      return .array place
  | _ => stuck

/-- A reference to a fresh array of objects. -/
def newObjects (t : Ty) (items : List Value) : Exec Value :=
  if t = objectType then do
    let place := (← get).objects.length
    modify (·.addObjects items)
    return .objects place
  else stuck

/-- The item at an index. -/
def load (array : Value) (index : Int32) : Exec Value := do
  let (_, a) ← arrayAt array
  let i ← a.checkIndex index
  return .scalar (← demand a.items[i]?)

/-- Replaces the item at an index by a value of the same type. -/
def store (array : Value) (index : Int32) (value : Value) : Exec Value := do
  let (place, a) ← arrayAt array
  let i ← a.checkIndex index
  match value with
  | .scalar x =>
    -- a value of another type would have been converted, which emitted code has no need for
    if x.kind = a.kind then do
      modify (·.setItems place (a.items.set i x))
      return value
    else stuck
  | _ => stuck

/-- A member of an object. Of arrays only the length is one. -/
def member (object : Value) (name : String) : Exec Value :=
  if name = "length" then do
    let (_, a) ← arrayAt object
    return .scalar (.int (Int32.ofNat a.items.length))
  else stuck

/-- A constant of type `int` narrowed to another integer type. -/
def narrow : Ty → Value → Exec Value
  | .prim .short, .scalar (.int n) => return .scalar (.short n.toInt16)
  | .prim .byte, .scalar (.int n) => return .scalar (.byte n.toInt8)
  | _, _ => stuck

/-- A value as it is held by a variable of the given type. An `int` is widened to a `long`; any
other value is of the type already. -/
def convert (t : Ty) (v : Value) : Exec Value := do
  let h ← get
  match t, v with
  | .prim .long, .scalar (.int n) => return .scalar (.long n.toInt64)
  | .prim k, .scalar x => if x.kind = k then return v else stuck
  | .array t, .array i =>
    if h.arrays[i]?.map (Ty.prim ·.kind) = some t then return v else stuck
  -- an array of objects is held as what it is, and any array may be missing
  | .array t, .objects _ => if t = objectType then return v else stuck
  | .array _, .null => return v
  | _, _ => stuck

/-! ### The class library -/

/-- `Math.toIntExact` -/
def toIntExact (n : Int64) : Exec Int32 :=
  if n.toInt32.toInt64 = n then return n.toInt32 else raise "ArithmeticException"

/-- Whether `n` items past `i` of an array can be copied to those past `j` of another. -/
def Copyable (sourceLength destinationLength : Nat) (i j n : Int32) : Prop :=
  0 ≤ i.toInt ∧ 0 ≤ j.toInt ∧ 0 ≤ n.toInt ∧
    i.toInt + n.toInt ≤ sourceLength ∧ j.toInt + n.toInt ≤ destinationLength

instance (m m' : Nat) (i j n : Int32) : Decidable (Copyable m m' i j n) :=
  inferInstanceAs (Decidable (_ ∧ _))

/-- `System.arraycopy`. The ranges are checked before anything is copied, and the items are those
that were there before. -/
def arraycopy (source : Value) (i : Int32) (destination : Value) (j n : Int32) : Exec Unit := do
  let (_, a) ← arrayAt source
  let (place, b) ← arrayAt destination
  -- both arrays are looked at first, then their types, then the ranges
  if a.kind ≠ b.kind then raise "ArrayStoreException"
  else if Copyable a.items.length b.items.length i j n then
    modify (·.setItems place
      (splice b.items j.toInt.toNat ((a.items.drop i.toInt.toNat).take n.toInt.toNat)))
  else raise "ArrayIndexOutOfBoundsException"

/-- `java.util.Arrays.fill` -/
def fill (array value : Value) : Exec Unit := do
  let (place, a) ← arrayAt array
  match value with
  | .scalar x =>
    if x.kind = a.kind then modify (·.setItems place (.replicate a.items.length x))
    else stuck
  | _ => stuck

/-- A static method of a class. It may give no value. -/
def callStatic (className method : String) (args : List Value) : Exec (Option Value) :=
  match className, method, args with
  | "Math", "toIntExact", [.scalar (.long n)] => do
    return some (.scalar (.int (← toIntExact n)))
  | "Math", "min", [.scalar (.int m), .scalar (.int n)] =>
    return some (.scalar (.int (if m ≤ n then m else n)))
  | "System", "arraycopy", [source, .scalar (.int i), destination, .scalar (.int j),
      .scalar (.int n)] => do
    arraycopy source i destination j n
    return none
  | "java.util.Arrays", "fill", [array, value] => do
    fill array value
    return none
  | _, _, _ => stuck

/-- The method of a class that no variable hides. -/
def Frame.call (frame : Frame) (className method : String) (args : List Value) :
    Exec (Option Value) :=
  if (frame className).isSome then stuck else callStatic className method args

/-! ## Expressions -/

mutual
/-- The value of an expression. -/
def eval (frame : Frame) : Expr → Exec Value
  | .null => return .null
  | .name x => demand (frame x)
  | .booleanLit b => return .scalar (.boolean b)
  | .intLit n => return .scalar (.int n)
  | .longLit n => return .scalar (.long n)
  -- a NaN is written as the constant of its class, so of its own bits nothing is left
  | .floatLit x => return .scalar (.float x.plain)
  | .doubleLit x => return .scalar (.double x.plain)
  | .charLit unit => return .scalar (.char unit)
  | .cast t e => do narrow t (← eval frame e)
  | .newArray t size => do newArray t (← asInt (← eval frame size))
  | .arrayInit t items => do newObjects t (← evalAll frame items)
  | .access array index => do
    let array ← eval frame array
    let index ← asInt (← eval frame index)
    load array index
  | .assign (.access array index) value => do
    let array ← eval frame array
    let index ← asInt (← eval frame index)
    -- the value is evaluated before the array is looked at
    let value ← eval frame value
    store array index value
  | .field object name => do member (← eval frame object) name
  | .binary .minus left right => do
    let m ← asInt (← eval frame left)
    let n ← asInt (← eval frame right)
    return .scalar (.int (m - n))
  | .methodCall (.name className) method args => do
    demand (← frame.call className method (← evalAll frame args))
  | _ => stuck

/-- The values of a list of expressions. -/
def evalAll (frame : Frame) : List Expr → Exec (List Value)
  | [] => return []
  | e :: es => do
    let v ← eval frame e
    let vs ← evalAll frame es
    return v :: vs
end

/-- The value of an expression as it is held by a variable of the given type. -/
def evalAs (frame : Frame) (t : Ty) (e : Expr) : Exec Value := do
  convert t (← eval frame e)

/-- Evaluates an expression for its effect alone. Only assignments and calls may stand so. -/
def perform (frame : Frame) : Expr → Exec Unit
  | .methodCall (.name className) method args => do
    let _ ← frame.call className method (← evalAll frame args)
  | .assign target value => do
    let _ ← eval frame (.assign target value)
  | _ => stuck

section

variable (frame : Frame)

/-- A variable has the value that it holds. -/
theorem eval_name {x : String} {v : Value} (hx : frame x = some v) :
    eval frame (.name x) = return v := by
  show demand (frame x) = _
  rw [hx]
  rfl

/-- The size of an array is an `int`. -/
theorem eval_newArray (t : Ty) (size : Expr) :
    eval frame (.newArray t size) = (eval frame size >>= fun v => asInt v >>= newArray t) := rfl

/-- The items of an array of objects are all evaluated before it is made. -/
theorem eval_arrayInit (t : Ty) (items : List Expr) :
    eval frame (.arrayInit t items) = (evalAll frame items >>= newObjects t) := rfl

/-- The array is evaluated before the index, and both before the item is looked up. -/
theorem eval_access (array index : Expr) :
    eval frame (.access array index) = (eval frame array >>= fun a =>
      eval frame index >>= fun v => asInt v >>= load a) := rfl

/-- The value is evaluated last, still before the array is looked at. -/
theorem eval_assign (array index value : Expr) :
    eval frame (.assign (.access array index) value) = (eval frame array >>= fun a =>
      eval frame index >>= fun v => asInt v >>= fun i => eval frame value >>= store a i) := rfl

/-- A member is that of an object. -/
theorem eval_field (object : Expr) (name : String) :
    eval frame (.field object name) = (eval frame object >>= fun v => member v name) := rfl

/-- A subtraction wraps around. -/
theorem eval_minus (left right : Expr) :
    eval frame (.binary .minus left right) = (eval frame left >>= fun v => asInt v >>= fun m =>
      eval frame right >>= fun w => asInt w >>= fun n => return .scalar (.int (m - n))) := rfl

/-- A call that is an expression has to give a value. -/
theorem eval_callOn (className method : String) (args : List Expr) :
    eval frame (.callOn className method args) = (evalAll frame args >>= fun vs =>
      frame.call className method vs >>= demand) := rfl

/-- Expressions are evaluated from left to right. -/
theorem evalAll_cons (e : Expr) (es : List Expr) :
    evalAll frame (e :: es) = (eval frame e >>= fun v =>
      evalAll frame es >>= fun vs => return v :: vs) := rfl

/-- A call that is a statement need not give a value. -/
theorem perform_callOn (className method : String) (args : List Expr) :
    perform frame (.callOn className method args) = (evalAll frame args >>= fun vs =>
      frame.call className method vs >>= fun _ => return ()) := rfl

/-- The value of an assignment that is a statement is dropped. -/
theorem perform_assign (target value : Expr) :
    perform frame (.assign target value) =
      (eval frame (.assign target value) >>= fun _ => return ()) := rfl

end

/-! ## Statements -/

/-- Executes the statements of a body of the given result type. The end is only reached in a body
that returns nothing, and no statement stands behind one that leaves. -/
def exec (result : Option Ty) (frame : Frame) : List Stmt → Exec (Option Value)
  | [] => if result = none then return none else stuck
  | .declare d :: rest =>
    -- no local variable may hide another one
    if (frame d.name).isSome then stuck
    else do
      let v ← evalAs frame d.type d.init
      exec result (Function.update frame d.name (some v)) rest
  | .eval e :: rest => do
    perform frame e
    exec result frame rest
  | [.ret none] => if result = none then return none else stuck
  | [.ret (some e)] =>
    match result with
    | some t => some <$> evalAs frame t e
    | none => stuck
  -- of an exception only its class is told, not its message
  | [.raise (.new (.named exception) [.stringLit _])] => raise exception
  | _ => stuck

section

variable (result : Option Ty) (frame : Frame) (rest : List Stmt)

/-- What follows a declaration is executed with one variable more. -/
theorem exec_declare {d : VarDecl} (hfree : frame d.name = none) :
    exec result frame (.declare d :: rest) = (evalAs frame d.type d.init >>= fun v =>
      exec result (Function.update frame d.name (some v)) rest) := by
  show (if (frame d.name).isSome then stuck else _) = _
  rw [hfree]
  rfl

/-- What follows an expression is executed with the same variables. -/
theorem exec_eval (e : Expr) :
    exec result frame (.eval e :: rest) = (perform frame e >>= fun _ =>
      exec result frame rest) := rfl

/-- A value that is returned is converted to the type of the result. -/
theorem exec_ret (t : Ty) (e : Expr) :
    exec (some t) frame [.ret (some e)] = some <$> evalAs frame t e := rfl

end

/-- Runs a method without parameters on a heap of its own. -/
def Method.run (m : Method) : EStateM.Result Failure Heap (Option Value) :=
  (if m.params = [] then exec m.result (fun _ => none) m.body else stuck : Exec _).run .empty

end ArrayBridge.Java
