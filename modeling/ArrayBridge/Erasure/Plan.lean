import ArrayBridge.Erased.Program

/-!
# What a binding becomes

Erasure treats one bridge binding at a time, in two halves. The first, here, checks the binding
against the types of the locals before it and says what erased code stands for it; it does not
depend on how adapters are shared. The second places that code and the adapters it demands.

* `Scope.plan` checks a binding and gives its `Plan`.
-/

namespace ArrayBridge.Erasure

open Bridge (Ty Expr Call)

/-! ## Errors -/

/-- What an operand is used for. -/
inductive Purpose where
  | member (kind : Kind) (op : Operation)
  | genericSize
  | genericGet
  | genericSet
deriving DecidableEq, Repr

/-- The name of a purpose. -/
def Purpose.text : Purpose → String
  | member k op => k.memberText op
  | genericSize => "generic size"
  | genericGet => "generic get"
  | genericSet => "generic set"

/-- What is demanded of an operand. -/
inductive Demand where
  | type (type : Ty)
  | sequence
  | element
deriving DecidableEq

/-- The name of a demand. -/
def Demand.text : Demand → String
  | type t => t.text
  | sequence => "a generic sequence"
  | element => "an element"

/-- What an expression produces. -/
inductive Product where
  | type (type : Ty)
  | boxedElement
deriving DecidableEq

/-- The name of a product. -/
def Product.text : Product → String
  | type t => t.text
  | boxedElement => "a boxed element"

/-- Why a binding cannot be erased. -/
inductive Fault where
  | unboundLocal (source : Local)
  | operandType (purpose : Purpose) (operand : Local) (expected : Demand) (found : Ty)
  | resultType (declared : Ty) (produced : Product)
deriving DecidableEq

/-- A fault and the binding that it was found at. -/
structure Error where
  binding : Local
  fault : Fault
deriving DecidableEq

/-- The text of an error. -/
def Error.message (e : Error) : String :=
  match e.fault with
  | .unboundLocal l => s!"binding %{e.binding} refers to %{l}, which is not bound before it"
  | .operandType purpose l expected found =>
    s!"binding %{e.binding}: operand %{l} of {purpose.text} has type {found.text}, " ++
      s!"expected {expected.text}"
  | .resultType declared produced =>
    s!"binding %{e.binding} is declared as {declared.text}, but its expression produces " ++
      produced.text

/-! ## Plans -/

/-- An array of which a generic value is demanded: the bridge local, and the native array that
stands for it. -/
structure ArraySource where
  kind : Kind
  source : Local
  array : Local
deriving DecidableEq, Repr

/-- An operand that is demanded as a generic value. -/
inductive Generic where
  /-- An erased local that can be used as it is. -/
  | plain (erased : Local)
  /-- An array, which has to be adapted. -/
  | adapted (source : ArraySource)
deriving DecidableEq, Repr

/-- What is done with a generic value. The other operands are erased locals. -/
inductive GenericUse where
  | size
  | get (index : Local)
  | set (index value : Local)
  | typeTest (descriptor : Descriptor)
  | typeOf
  | copy (kind : Kind)
deriving DecidableEq

/-- The expression that uses an erased local as a generic value. -/
def GenericUse.expr (operand : Local) : GenericUse → Erased.Expr
  | size => .genericSize operand
  | get index => .genericGet operand index
  | set index value => .genericSet operand index value
  | typeTest d => .typeTest operand d
  | typeOf => .typeOf operand
  | copy k => .copyFromGeneric k operand

/-- The erased code that stands for a binding. -/
inductive Plan where
  /-- One expression. -/
  | bind (type : Erased.Ty) (expr : Erased.Expr)
  /-- One expression that uses a generic value. -/
  | use (type : Erased.Ty) (operand : Generic) (use : GenericUse)
  /-- Nothing but the adapter of an array. -/
  | adapt (source : ArraySource)
  /-- A fresh array, and the adapter of it. -/
  | adaptFresh (kind : Kind) (array : Erased.Expr)
deriving DecidableEq

/-! ## Scopes -/

/-- A binding that has been erased, and the erased local that stands for it. -/
structure Bound where
  binding : Bridge.Binding
  erased : Local
deriving DecidableEq

/-- The bindings erased so far, in order. -/
abbrev Scope := List Bound

namespace Scope

variable (scope : Scope)

/-- The binding of a local. -/
def bound (l : Local) : Except Fault Bound :=
  match scope[l]? with
  | some b => .ok b
  | none => .error (.unboundLocal l)

/-- The erased local that stands for an operand of the given type. -/
def expect (purpose : Purpose) (l : Local) (type : Ty) : Except Fault Local := do
  let b ← scope.bound l
  if b.binding.type = type then return b.erased
  else throw (.operandType purpose l (.type type) b.binding.type)

/-- An operand that has to be a primitive value or an object. -/
def element (purpose : Purpose) (l : Local) : Except Fault Local := do
  let b ← scope.bound l
  match b.binding.type with
  | .prim _ | .object _ => return b.erased
  | type => throw (.operandType purpose l .element type)

/-- An operand that is demanded as a generic value, whatever its type. -/
def generic (l : Local) : Except Fault Generic := do
  let b ← scope.bound l
  match b.binding.type with
  | .wrapper k => return .adapted ⟨k, l, b.erased⟩
  | _ => return .plain b.erased

/-- An operand that has to be an array or an object. -/
def sequence (purpose : Purpose) (l : Local) : Except Fault Generic := do
  let b ← scope.bound l
  match b.binding.type with
  | .wrapper k => return .adapted ⟨k, l, b.erased⟩
  | .object _ => return .plain b.erased
  | type => throw (.operandType purpose l .sequence type)

/-- Checks that what an expression produces may be bound at the declared type. -/
def checkResult (declared : Ty) (ok : Bool) (produced : Product) : Except Fault Unit :=
  if ok then .ok () else .error (.resultType declared produced)

/-- The expression that constructs an array. A literal zero element is left to the fresh array. -/
def constructArray (k : Kind) (size : Local) (element : Option Local) :
    Except Fault Erased.Expr := do
  let purpose := .member k .construct
  let size ← scope.expect purpose size .integer
  match element with
  | none => return .newArray k size
  | some l =>
    let erased ← scope.expect purpose l (.prim k)
    match (← scope.bound l).binding.expr with
    | .primLit value => return if value.isZero then .newArray k size else .fillArray k size erased
    | _ => return .fillArray k size erased

/-- An offset of a copy; zero if it is left out. -/
def offset (k : Kind) : Option Local → Except Fault Erased.Operand
  | none => return .const 0
  | some l => return .read (← scope.expect (.member k .copyTo) l .integer)

/-- The length of a copy; what remains of the arrays if it is left out. -/
def copyLength (k : Kind) : Option Local → Except Fault Erased.CopyLength
  | none => return .remaining
  | some l => return .explicit (.read (← scope.expect (.member k .copyTo) l .integer))

/-- The plan of a call, bound at the given type. -/
def planCall (type : Ty) (k : Kind) (call : Call) : Except Fault Plan := do
  let purpose := .member k call.operation
  match call with
  | .construct size element =>
    checkResult type (type = .wrapper k || type.isObject) (.type (.wrapper k))
    let array ← scope.constructArray k size element
    return if type.isObject then .adaptFresh k array else .bind (.ofBridge type) array
  | .get array index =>
    checkResult type (type = .prim k) (.type (.prim k))
    let array ← scope.expect purpose array (.wrapper k)
    let index ← scope.expect purpose index .integer
    return .bind (.ofBridge type) (.load k array index)
  | .set array index value =>
    checkResult type (type = .unit) (.type .unit)
    let array ← scope.expect purpose array (.wrapper k)
    let index ← scope.expect purpose index .integer
    let value ← scope.expect purpose value (.prim k)
    return .bind (.ofBridge type) (.store k array index value)
  | .length array =>
    checkResult type (type = .integer) (.type .integer)
    let array ← scope.expect purpose array (.wrapper k)
    return .bind (.ofBridge type) (.arrayLength k array)
  | .copyTo source destination sourceOffset destinationOffset length =>
    checkResult type (type = .unit) (.type .unit)
    -- the order of the checks decides which of several faults is reported
    let length ← scope.copyLength k length
    let source ← scope.expect purpose source (.wrapper k)
    let sourceOffset ← scope.offset k sourceOffset
    let destination ← scope.expect purpose destination (.wrapper k)
    let destinationOffset ← scope.offset k destinationOffset
    return .bind (.ofBridge type)
      (.arrayCopy k source sourceOffset destination destinationOffset length)
  | .toGenericView array =>
    checkResult type type.isObject (.type (.object (.genericView k)))
    let erased ← scope.expect purpose array (.wrapper k)
    return .adapt ⟨k, array, erased⟩
  | .fromGenericView sequence =>
    checkResult type (type = .wrapper k) (.type (.wrapper k))
    let sequence ← scope.sequence purpose sequence
    return .use (.ofBridge type) sequence (.copy k)

/-- Whether a test of a value of the given type is answered by the type alone: a wrapper is of the
class of its own arrays. -/
def testIsStatic (type : Ty) (d : Descriptor) : Bool :=
  match type with
  | .wrapper k => d.elementKind? = some k
  | _ => false

/-- The plan of an expression, bound at the given type. -/
def plan (type : Ty) (expr : Expr) : Except Fault Plan := do
  match expr with
  | .var l =>
    let b ← scope.bound l
    match b.binding.type, type.isObject with
    | .wrapper k, true => return .adapt ⟨k, l, b.erased⟩
    | found, _ =>
      checkResult type (found = type) (.type found)
      return .bind (.ofBridge type) (.var b.erased)
  | .intLit value =>
    checkResult type (type = .integer) (.type .integer)
    return .bind (.ofBridge type) (.intLit value)
  | .primLit value =>
    checkResult type (type = .prim value.kind) (.type (.prim value.kind))
    return .bind (.ofBridge type) (.primLit value)
  | .tuple items =>
    let items ← items.mapM fun l => Bound.erased <$> scope.bound l
    return .bind (.ofBridge type) (.tuple items)
  | .call k call => scope.planCall type k call
  | .reflective k op => return .bind (.ofBridge type) (.invokeWrapper k op)
  | .genericSize sequence =>
    checkResult type (type = .integer) (.type .integer)
    return .use (.ofBridge type) (← scope.sequence .genericSize sequence) .size
  | .genericGet sequence index =>
    checkResult type type.isObject .boxedElement
    let index ← scope.expect .genericGet index .integer
    return .use (.ofBridge type) (← scope.sequence .genericGet sequence) (.get index)
  | .genericSet sequence index value =>
    checkResult type (type = .unit) (.type .unit)
    let index ← scope.expect .genericSet index .integer
    let value ← scope.element .genericSet value
    return .use (.ofBridge type) (← scope.sequence .genericSet sequence) (.set index value)
  | .typeTest value d =>
    checkResult type (type = .prim .boolean) (.type (.prim .boolean))
    if testIsStatic (← scope.bound value).binding.type d then
      return .bind (.ofBridge type) (.primLit (.boolean true))
    return .use (.ofBridge type) (← scope.generic value) (.typeTest d)
  | .typeOf value =>
    checkResult type (type = .descriptor) (.type .descriptor)
    return .use (.ofBridge type) (← scope.generic value) .typeOf
  | .sequenceLit element items =>
    checkResult type type.isObject (.type (.object (.sequenceOf element)))
    return .bind (.ofBridge type) (.sequenceLit element items)

end Scope

end ArrayBridge.Erasure
