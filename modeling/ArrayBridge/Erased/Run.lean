import ArrayBridge.Erased.Value
import ArrayBridge.Log

/-!
# Running erased programs

The bindings of a program are evaluated in order against a store. Each operand is read, and its
value tested, before the store is touched.

* `Expr.eval` evaluates one expression, given the values of the locals bound so far.
* `Program.run` runs a program.
-/

namespace ArrayBridge.Erased

/-- What an operand was expected to be. -/
inductive Expectation where
  | integer
  | primitive
  | array
  | sequence
  | element
  | reified
deriving DecidableEq, Repr

/-- The name of an expectation. -/
def Expectation.text : Expectation → String
  | integer => "an integer"
  | primitive => "a primitive value"
  | array => "a native array of the operation's kind"
  | sequence => "a generic sequence"
  | element => "an element"
  | reified => "a value with a reified type"

/-- Why a program stopped. -/
inductive RunError where
  | array (fault : ArrayFault)
  | sequence (fault : SequenceFault)
  | unboundLocal (source : Local)
  | dynamicType (source : Local) (expected : Expectation) (found : Value.Shape)
deriving DecidableEq

/-- The text of an error. -/
def RunError.message : RunError → String
  | array fault => fault.message
  | sequence fault => fault.message
  | unboundLocal l => s!"%{l} is used before it is bound"
  | dynamicType l expected found => s!"%{l}: expected {expected.text}, found {found.text}"

/-! ## Operands -/

/-- The values of the locals bound so far, in order. -/
abbrev Env := List Value

namespace Env

variable (env : Env)

/-- The value of a local. -/
def value (l : Local) : Except RunError Value :=
  match env[l]? with
  | some v => .ok v
  | none => .error (.unboundLocal l)

/-- What `read` makes of the value of a local, which is to be as expected. -/
def operand {α : Type} (expected : Expectation) (read : Value → Option α) (l : Local) :
    Except RunError α := do
  let v ← env.value l
  match read v with
  | some a => return a
  | none => throw (.dynamicType l expected v.shape)

/-- The value of a local that is an integer. -/
def integer : Local → Except RunError Int64 :=
  env.operand .integer fun
    | .integer n => some n
    | _ => none

/-- The value of an offset or a length. -/
def offset : Operand → Except RunError Int64
  | .read l => env.integer l
  | .const n => .ok n

/-- The length of a copy, if one is given. -/
def copyLength : CopyLength → Except RunError (Option Int64)
  | .explicit n => some <$> env.offset n
  | .remaining => .ok none

/-- The value of a local that is a primitive value. -/
def prim : Local → Except RunError Prim :=
  env.operand .primitive fun
    | .prim p => some p
    | _ => none

/-- The value of a local that is an array of kind `k`. -/
def array (k : Kind) : Local → Except RunError ArrayRef :=
  env.operand .array fun
    | .array a => if a.kind = k then some a else none
    | _ => none

/-- The value of a local that is a generic sequence. -/
def sequence : Local → Except RunError Sequence :=
  env.operand .sequence fun
    | .sequence q => some q
    | _ => none

/-- The value of a local that can be stored in a generic sequence, boxed. -/
def element : Local → Except RunError Boxed :=
  env.operand .element fun
    | .prim p => some p.box
    | .boxed b => some b
    | _ => none

end Env

/-- A value that knows its own type. -/
inductive Reified where
  | sequence (ref : Sequence)
  | boxed (value : Boxed)
deriving DecidableEq

namespace Reified

/-- The type of a value. -/
def descriptor : Reified → Descriptor
  | sequence q => q.descriptor
  | boxed b => b.descriptor

/-- Whether a value is of the given type. -/
def isInstanceOf (d : Descriptor) : Reified → Bool
  | sequence q => q.isInstanceOf d
  | boxed b => b.isInstanceOf d

/-- The value as one that knows its own type. A native array does not: it has to be adapted. -/
def ofValue? : Value → Option Reified
  | .sequence q => some (sequence q)
  | .prim p => some (boxed p.box)
  | .boxed b => some (boxed b)
  | .integer n => some (boxed (.integer n))
  | _ => none

end Reified

/-- The value of a local that knows its own type. -/
def Env.reified (env : Env) : Local → Except RunError Reified :=
  env.operand .reified Reified.ofValue?

/-! ## Evaluation -/

open ArrayBridge.Action (lift mapError view)

/-- The value of an expression, and its effect on the store. -/
def Expr.eval (env : Env) : Expr → Action RunError Value
  | var l => lift (env.value l)
  | intLit n => return .integer n
  | primLit p => return .prim p
  | tuple items => return .tuple (← lift (items.mapM env.value))
  | newArray k size => do
    let size ← lift (env.integer size)
    return .array (← mapError .array (ArrayRef.new k size none))
  | fillArray k size element => do
    let size ← lift (env.integer size)
    let element ← lift (env.prim element)
    return .array (← mapError .array (ArrayRef.new k size (some element)))
  | load k array index => do
    let array ← lift (env.array k array)
    let index ← lift (env.integer index)
    return .prim (← mapError .array (array.get index))
  | store k array index value => do
    let array ← lift (env.array k array)
    let index ← lift (env.integer index)
    let value ← lift (env.prim value)
    mapError .array (array.set index value)
    return .unit
  | arrayLength k array => do
    let array ← lift (env.array k array)
    return .integer (Int64.ofNat (← view (·.length array)))
  | arrayCopy k source sourceOffset destination destinationOffset length => do
    -- the length is read first, so a fault in it hides one in the arrays
    let length ← lift (env.copyLength length)
    let source ← lift (env.array k source)
    let destination ← lift (env.array k destination)
    let sourceOffset ← lift (env.offset sourceOffset)
    let destinationOffset ← lift (env.offset destinationOffset)
    mapError .array (source.copyTo destination sourceOffset destinationOffset length)
    return .unit
  | wrapAdapter k array => return .sequence (← lift (env.array k array)).toSequence
  | copyFromGeneric k sequence => do
    let sequence ← lift (env.sequence sequence)
    return .array (← mapError .array (ArrayRef.ofSequence k sequence))
  | invokeWrapper k op => throw (.array (.unsupportedDirectInvocation k op))
  | genericSize sequence => do
    let sequence ← lift (env.sequence sequence)
    return .integer (Int64.ofNat (← view sequence.size))
  | genericGet sequence index => do
    let sequence ← lift (env.sequence sequence)
    let index ← lift (env.integer index)
    let length ← view sequence.size
    let i ← lift ((Sequence.checkIndex index length).mapError .sequence)
    match ← view (sequence.item? · i) with
    | some item => return .boxed item
    | none => throw (.sequence (.indexOutOfBounds index length))
  | genericSet sequence index value => do
    let sequence ← lift (env.sequence sequence)
    let index ← lift (env.integer index)
    let length ← view sequence.size
    let i ← lift ((Sequence.checkIndex index length).mapError .sequence)
    -- the index is checked before the value is looked at
    let value ← lift (env.element value)
    mapError .sequence (sequence.setItem i value)
    return .unit
  | typeTest value d => do
    let value ← lift (env.reified value)
    return .prim (.boolean (value.isInstanceOf d))
  | typeOf value => return .descriptor (← lift (env.reified value)).descriptor
  | sequenceLit element items =>
    Action.change fun s =>
      let (ref, s) := s.newSequence element items.toArray
      (.sequence (.boxed ref), s)

/-- Evaluates bindings one after another, each seeing the values of those before it. -/
def evalBindings (env : Env) : List Binding → Action RunError Env
  | [] => return env
  | b :: rest => do
    let v ← b.expr.eval env
    evalBindings (env ++ [v]) rest

/-- The value that a program returns. -/
def Program.eval (p : Program) : Action RunError Value := do
  let env ← evalBindings [] p.bindings
  lift (env.value p.result)

/-- Runs a program on a store of its own: the outcome, and the store at the end. -/
def Program.run (p : Program) : EStateM.Result RunError Store Value := p.eval.run .empty

/-! ## Records -/

/-- The record of an array being seen as a generic sequence. -/
def wrapRecord (a : ArrayRef) (s : Store) : Log.Record :=
  ⟨.trace, s!"wrapping {a.kind.nativeName} array of length {s.length a} in a generic view"⟩

/-- The records of evaluating bindings from a store on: each value as it is bound. -/
def bindingRecords (env : Env) : List Binding → Store → List Log.Record
  | [], _ => []
  | b :: rest, s =>
    match b.expr.eval env s with
    | .error _ _ => []
    | .ok v s =>
      let wrapped := match b.expr, v with
        | .wrapAdapter .., .sequence (.view a) => [wrapRecord a s]
        | _, _ => []
      wrapped ++ ⟨.trace, s!"%{env.length} = {v.text s}"⟩ :: bindingRecords (env ++ [v]) rest s

/-- The records of running a program. -/
def Program.runRecords (p : Program) : List Log.Record := bindingRecords [] p.bindings .empty

end ArrayBridge.Erased
