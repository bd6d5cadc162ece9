import ArrayBridge.Bridge.Program

/-!
# Call sites

Arguments at a call site are matched to the parameters of the operation: positional arguments
fill parameters in order, named ones after them fill the rest, and what is left must have a
default.

* `Operation.resolve` gives one slot per parameter, empty where a default is to be taken.
* `Operation.build` makes the expression of a resolved call.
-/

namespace ArrayBridge

/-- An argument at a call site. -/
inductive Argument (α : Type) where
  | positional (value : α)
  | named (name : String) (value : α)
deriving DecidableEq, Repr

/-- Why a call does not fit its operation. -/
inductive CallFault where
  | tooManyArguments (max found : Nat)
  | unknownParameter (name : String)
  | duplicateArgument (name : String)
  | missingArgument (name : String)
  | positionalAfterNamed
  | missingReceiver
  | unexpectedReceiver
deriving DecidableEq, Repr

/-- The text of a fault in a call to the given member. -/
def CallFault.message (member : String) : CallFault → String
  | tooManyArguments max found =>
    s!"{member} takes at most {max} arguments, but {found} were supplied"
  | unknownParameter name => s!"{member} has no parameter named `{name}`"
  | duplicateArgument name => s!"argument `{name}` of {member} is supplied more than once"
  | missingArgument name => s!"call to {member} is missing the required argument `{name}`"
  | positionalAfterNamed => s!"positional argument after named arguments in call to {member}"
  | missingReceiver => s!"{member} is an instance member and needs a receiver"
  | unexpectedReceiver => s!"{member} is a static member and takes no receiver"

/-- A fault together with the member that was called. -/
structure CallError where
  kind : Kind
  operation : Operation
  fault : CallFault
deriving DecidableEq, Repr

/-- The text of a call error. -/
def CallError.message (e : CallError) : String :=
  e.fault.message (e.kind.memberText e.operation)

namespace Signature

variable {α : Type} (s : Signature)

/-- Fills the parameter at `index`, unless it is filled already. -/
def fill (slots : List (Option α)) (index : Nat) (value : α) :
    Except CallFault (List (Option α)) :=
  match slots[index]? with
  | some none => .ok (slots.set index (some value))
  | _ => .error (.duplicateArgument (s.params[index]?.elim "" Param.name))

/-- Places the arguments from the given position on, the last of the named ones having been seen
already if `afterNamed`. -/
def place (slots : List (Option α)) (afterNamed : Bool) (position : Nat) :
    List (Argument α) → Except CallFault (List (Option α))
  | [] => .ok slots
  | .positional value :: rest =>
    -- once an argument is named, all that follow have to be
    if afterNamed then .error .positionalAfterNamed
    else do
      let slots ← s.fill slots position value
      place slots false (position + 1) rest
  | .named name value :: rest =>
    match s.paramIndex? name with
    | none => .error (.unknownParameter name)
    | some index => do
      let slots ← s.fill slots index value
      place slots true (position + 1) rest

/-- The first parameter that is neither filled nor has a default. -/
def missing? (slots : List (Option α)) : Option Param :=
  ((slots.zip s.params).find? fun (slot, param) => slot.isNone && param.default.isNone).map (·.2)

/-- One slot per parameter; a slot is empty only if its parameter has a default. -/
def resolve (args : List (Argument α)) : Except CallFault (List (Option α)) := do
  if s.params.length < args.length then
    throw (.tooManyArguments s.params.length args.length)
  let slots ← s.place (s.params.map fun _ => none) false 0 args
  match s.missing? slots with
  | some param => throw (.missingArgument param.name)
  | none => return slots

/-- Checks that there is a receiver exactly if the operation is not static. -/
def checkReceiver (receiver : Option α) : Except CallFault Unit :=
  match s.isStatic, receiver with
  | true, some _ => .error .unexpectedReceiver
  | false, none => .error .missingReceiver
  | _, _ => .ok ()

end Signature

namespace Operation

/-- Takes the slots of a resolved call one after another. -/
abbrev SlotReader := StateT (List (Option Local)) (Except CallFault)

namespace SlotReader

/-- The next slot. -/
def next : SlotReader (Option Local) := fun slots => .ok (slots.head?.join, slots.tail)

/-- What is in the next slot, which is that of the parameter with the given name. -/
def required (name : String) : SlotReader Local := do
  match ← next with
  | some l => return l
  | none => throw (.missingArgument name)

/-- The receiver of an instance member. -/
def this : Option Local → SlotReader Local
  | some l => return l
  | none => throw .missingReceiver

end SlotReader

open SlotReader in
/-- The expression of a call with the given receiver, which takes its other operands from the slots
in the order of the parameters. -/
def expr (op : Operation) (k : Kind) (receiver : Option Local) : SlotReader Bridge.Expr := do
  match op with
  | construct =>
    let size ← required "size"
    let element ← next
    return .call k (.construct size element)
  | get =>
    let array ← this receiver
    let index ← required "index"
    return .call k (.get array index)
  | set =>
    let index ← required "index"
    let value ← required "element"
    let array ← this receiver
    return .call k (.set array index value)
  | length => return .call k (.length (← this receiver))
  | copyTo =>
    let destination ← required "destination"
    let sourceOffset ← next
    let destinationOffset ← next
    let count ← next
    let source ← this receiver
    return .call k (.copyTo source destination sourceOffset destinationOffset count)
  | toGenericView => return .call k (.toGenericView (← this receiver))
  | fromGenericView => return .call k (.fromGenericView (← required "array"))
  | reifiedType => return .typeOf (← this receiver)

/-- The slots of a call to the wrapper of kind `k`. -/
def resolve {α : Type} (op : Operation) (k : Kind) (args : List (Argument α)) :
    Except CallError (List (Option α)) :=
  (op.signature.resolve args).mapError (⟨k, op, ·⟩)

/-- The expression of a call to the wrapper of kind `k`. -/
def build (op : Operation) (k : Kind) (receiver : Option Local) (args : List (Argument Local)) :
    Except CallError Bridge.Expr := do
  (op.signature.checkReceiver receiver).mapError (⟨k, op, ·⟩)
  let slots ← op.resolve k args
  ((op.expr k receiver).run' slots).mapError (⟨k, op, ·⟩)

end Operation

end ArrayBridge
