import ArrayBridge.Proofs.Erased.Outcomes

/-!
# Reading a bridge program directly

What a bridge program means without being erased: its bindings run in order against a store of
arrays, a wrapper is the array itself, and wherever a generic value is wanted of a wrapper it is a
live view of that array. No adapter is made and no local is renumbered.

* `Bridge.Expr.read` is what one expression does.
* `Bridge.Program.read` runs a program.
-/

namespace ArrayBridge

open ArrayBridge.Erased (Value Env RunError)
open ArrayBridge.Action (lift mapError view)

/-! ## Values -/

/-- A value where a generic one is wanted: an array is seen as a sequence of boxed elements that
shares its storage. -/
def Erased.Value.asGeneric : Value → Value
  | .array a => .sequence a.toSequence
  | v => v

/-- The locals, each as it is where a generic value is wanted. -/
def Erased.Env.asGeneric (env : Env) : Env := env.map Value.asGeneric

/-! ## Expressions -/

namespace Bridge

/-- The value of a local that may be left out. -/
def readOption {α : Type} (read : Local → Except RunError α) : Option Local →
    Except RunError (Option α)
  | none => .ok none
  | some l => some <$> read l

/-- What a call to a member of the wrapper of a kind does. -/
def Call.read (env : Env) (k : Kind) : Call → Action RunError Value
  | construct size element => do
    let size ← lift (env.integer size)
    let element ← lift (readOption env.prim element)
    return .array (← mapError .array (ArrayRef.new k size element))
  | get array index => do
    let array ← lift (env.array k array)
    let index ← lift (env.integer index)
    return .prim (← mapError .array (array.get index))
  | set array index value => do
    let array ← lift (env.array k array)
    let index ← lift (env.integer index)
    let value ← lift (env.prim value)
    mapError .array (array.set index value)
    return .unit
  | length array => do
    let array ← lift (env.array k array)
    return .integer (Int64.ofNat (← view (·.length array)))
  | copyTo source destination sourceOffset destinationOffset count => do
    let source ← lift (env.array k source)
    let destination ← lift (env.array k destination)
    let sourceOffset ← lift (readOption env.integer sourceOffset)
    let destinationOffset ← lift (readOption env.integer destinationOffset)
    let count ← lift (readOption env.integer count)
    mapError .array
      (source.copyTo destination (sourceOffset.getD 0) (destinationOffset.getD 0) count)
    return .unit
  | toGenericView array => do
    let array ← lift (env.array k array)
    return .sequence array.toSequence
  | fromGenericView sequence => do
    let sequence ← lift (env.asGeneric.sequence sequence)
    return .array (← mapError .array (ArrayRef.ofSequence k sequence))

/-- What an expression does. -/
def Expr.read (env : Env) : Expr → Action RunError Value
  | var l => lift (env.value l)
  | intLit n => return .integer n
  | primLit p => return .prim p
  | tuple items => return .tuple (← lift (items.mapM env.value))
  | call k member => member.read env k
  | reflective k op => throw (.array (.unsupportedDirectInvocation k op))
  | genericSize sequence => do
    let sequence ← lift (env.asGeneric.sequence sequence)
    return .integer (Int64.ofNat (← view (·.itemsOf sequence)).length)
  | genericGet sequence index => do
    let sequence ← lift (env.asGeneric.sequence sequence)
    let index ← lift (env.integer index)
    let items ← view (·.itemsOf sequence)
    match Erased.itemAt? items index with
    | some item => return .boxed item
    | none => throw (.sequence (.indexOutOfBounds index items.length))
  | genericSet sequence index value => do
    let sequence ← lift (env.asGeneric.sequence sequence)
    let index ← lift (env.integer index)
    let items ← view (·.itemsOf sequence)
    match Erased.itemAt? items index with
    | some _ =>
      let value ← lift (env.element value)
      mapError .sequence (sequence.setItem index.toInt.toNat value)
      return .unit
    | none => throw (.sequence (.indexOutOfBounds index items.length))
  | typeTest value d => do
    let value ← lift (env.asGeneric.reified value)
    return .prim (.boolean (value.isInstanceOf d))
  | typeOf value => return .descriptor (← lift (env.asGeneric.reified value)).descriptor
  | sequenceLit element items =>
    Action.change fun s =>
      let (ref, s) := s.newSequence element items.toArray
      (.sequence (.boxed ref), s)

/-! ## Programs -/

/-- What a binding is bound to: an array bound at an object type is bound as a view of it. -/
def Binding.read (env : Env) (b : Binding) : Action RunError Value := do
  let v ← b.expr.read env
  return if b.type.isObject then v.asGeneric else v

/-- Runs bindings one after another, each seeing the values of those before it. -/
def readBindings (env : Env) : List Binding → Action RunError Env
  | [] => return env
  | b :: rest => do
    let v ← b.read env
    readBindings (env ++ [v]) rest

/-- Runs a program on a store of its own: the outcome, and the store at the end. -/
def Program.read (p : Program) : EStateM.Result RunError Store Value :=
  (readBindings [] p.bindings >>= fun env => lift (env.value p.result)).run .empty

end Bridge

end ArrayBridge
