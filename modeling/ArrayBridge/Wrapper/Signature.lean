import ArrayBridge.Kind

/-!
# Members of an array wrapper

The operations that every array wrapper declares, with their parameters, defaults and results.
The table is the same for every kind; `Element` and `Wrapper` are read relative to it.
-/

namespace ArrayBridge

/-- An operation that an array wrapper declares. -/
inductive Operation where
  | construct
  | get
  | set
  | length
  | copyTo
  | toGenericView
  | fromGenericView
  | reifiedType
deriving DecidableEq, Repr, Inhabited

namespace Operation

/-- Every operation, in the order of declaration. -/
def all : List Operation :=
  [construct, get, set, length, copyTo, toGenericView, fromGenericView, reifiedType]

/-- The name of the member. -/
def memberName : Operation → String
  | construct => "new"
  | get => "get"
  | set => "set"
  | length => "size"
  | copyTo => "copyTo"
  | toGenericView => "array"
  | fromGenericView => "from"
  | reifiedType => "$getType$"

/-- The name of the operation itself, as it stands in tables. -/
def label : Operation → String
  | construct => "Construct"
  | get => "Get"
  | set => "Set"
  | length => "Length"
  | copyTo => "CopyTo"
  | toGenericView => "ToGenericView"
  | fromGenericView => "FromGenericView"
  | reifiedType => "ReifiedType"

/-- Place of the operation in the table. -/
def position (op : Operation) : Nat := all.idxOf op

/-- The operation with the given label. -/
def ofLabel? (s : String) : Option Operation := all.find? (·.label == s)

end Operation

/-- An operation of the wrapper of a kind, as in `IntArray.copyTo`. -/
def Kind.memberText (k : Kind) (op : Operation) : String := k.wrapperName ++ "." ++ op.memberName

/-- What an argument has to be. -/
inductive ParamType where
  | integer
  /-- An element of the wrapper's kind. -/
  | element
  /-- A wrapper of the same kind. -/
  | wrapper
  /-- A generic sequence. -/
  | genericView
deriving DecidableEq, Repr

/-- The value that an omitted argument takes. -/
inductive DefaultRule where
  /-- The zero value of the kind. -/
  | elementDefault
  | zero
  /-- As many elements as fit in both arrays past their offsets. -/
  | remainingLength
deriving DecidableEq, Repr

/-- What an operation returns. -/
inductive ReturnType where
  | unit
  | integer
  | element
  | wrapper
  | genericView
  | descriptor
deriving DecidableEq, Repr

/-- A parameter; it may be omitted if it has a default. -/
structure Param where
  name : String
  type : ParamType
  default : Option DefaultRule
deriving DecidableEq, Repr

/-- The declaration of an operation. -/
structure Signature where
  operation : Operation
  /-- Whether the operation is called without a receiver. -/
  isStatic : Bool
  params : List Param
  result : ReturnType
deriving DecidableEq, Repr

/-- The declaration of each operation. -/
def Operation.signature (op : Operation) : Signature :=
  match op with
  | .construct =>
    ⟨op, true, [⟨"size", .integer, none⟩, ⟨"element", .element, some .elementDefault⟩], .wrapper⟩
  | .get => ⟨op, false, [⟨"index", .integer, none⟩], .element⟩
  | .set => ⟨op, false, [⟨"index", .integer, none⟩, ⟨"element", .element, none⟩], .unit⟩
  | .length => ⟨op, false, [], .integer⟩
  | .copyTo =>
    ⟨op, false,
      [⟨"destination", .wrapper, none⟩,
       ⟨"sourcePosition", .integer, some .zero⟩,
       ⟨"destinationPosition", .integer, some .zero⟩,
       ⟨"length", .integer, some .remainingLength⟩],
      .unit⟩
  | .toGenericView => ⟨op, false, [], .genericView⟩
  | .fromGenericView => ⟨op, true, [⟨"array", .genericView, none⟩], .wrapper⟩
  | .reifiedType => ⟨op, false, [], .descriptor⟩

namespace Signature

/-- Place of the parameter with the given name. -/
def paramIndex? (s : Signature) (name : String) : Option Nat :=
  s.params.findIdx? (·.name == name)

/-- Number of parameters without a default. -/
def requiredCount (s : Signature) : Nat := s.params.countP (·.default.isNone)

end Signature

@[simp] theorem Operation.operation_signature (op : Operation) :
    op.signature.operation = op := by cases op <;> rfl

end ArrayBridge
