import ArrayBridge.Descriptor
import ArrayBridge.Wrapper.Signature

/-!
# Faults of array operations

What can go wrong when a native array or a generic sequence is used, and the text of each fault.
-/

namespace ArrayBridge

/-- A failed operation on a native array. -/
inductive ArrayFault where
  | indexOutOfBounds (op : Operation) (kind : Kind) (index : Int64) (length : Nat)
  /-- `length` is missing if the rest of the arrays was to be copied. -/
  | invalidCopyRange (kind : Kind) (sourceOffset destinationOffset : Int64)
      (length : Option Int64) (sourceLength destinationLength : Nat)
  | negativeSize (kind : Kind) (size : Int64)
  | sizeTooLarge (kind : Kind) (size : Int64)
  /-- A wrapper member was reached at run time. -/
  | unsupportedDirectInvocation (kind : Kind) (op : Operation)
  /-- A boxed element does not unbox to the kind. -/
  | typeMismatch (op : Operation) (kind : Kind) (index : Int64) (found : Boxed)
  | kindMismatch (op : Operation) (expected found : Kind)
deriving DecidableEq

/-- The largest length of a native array, the largest 32-bit integer. -/
def maxLength : Nat := 0x7fffffff

namespace ArrayFault

/-- How many items a copy asks for. -/
def countText : Option Int64 → String
  | none => "the remaining"
  | some n => toString n.toInt

/-- The text of a fault. -/
def message : ArrayFault → String
  | indexOutOfBounds op kind index length =>
    s!"{kind.nativeName} array {op.memberName}: index out of bounds: attempt to access item " ++
      s!"{index.toInt} of array with length {length}"
  | invalidCopyRange kind sourceOffset destinationOffset length sourceLength destinationLength =>
    s!"{kind.nativeName} array copyTo: copy range out of bounds: attempt to copy " ++
      countText length ++ s!" items from offset {sourceOffset.toInt} of array with length " ++
      s!"{sourceLength} to offset {destinationOffset.toInt} of array with length " ++
      s!"{destinationLength}"
  | negativeSize kind size =>
    s!"{kind.nativeName} array new: invalid construction: negative size {size.toInt}"
  | sizeTooLarge kind size =>
    s!"{kind.nativeName} array new: invalid construction: size {size.toInt} exceeds the " ++
      s!"maximum array length {maxLength}"
  | unsupportedDirectInvocation kind op =>
    s!"unsupported direct invocation of {kind.memberText op}: array wrapper members must be " ++
      "erased at compile time"
  | typeMismatch op kind index found =>
    s!"{kind.nativeName} array {op.memberName}: type mismatch: item {index.toInt} " ++
      s!"({found.typeName} {found.text}) is not a valid {kind.nativeName}"
  | kindMismatch op expected found =>
    s!"{expected.nativeName} array {op.memberName}: expected a {expected.nativeName} operand, " ++
      s!"found a {found.nativeName} one"

end ArrayFault

/-- A failed operation on a generic sequence. -/
inductive SequenceFault where
  | indexOutOfBounds (index : Int64) (length : Nat)
  /-- A boxed element is not of the sequence's element type. -/
  | elementType (value : Boxed) (element : Descriptor)
  /-- The array behind the sequence refused. -/
  | array (fault : ArrayFault)
deriving DecidableEq

/-- The text of a fault. -/
def SequenceFault.message : SequenceFault → String
  | indexOutOfBounds index length =>
    s!"index out of bounds: attempt to access item {index.toInt} of sequence with length {length}"
  | elementType value element =>
    s!"cannot store {value.typeName} {value.text} in a sequence of {element.text}"
  | array fault => fault.message

end ArrayBridge
