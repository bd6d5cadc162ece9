import ArrayBridge.Store.Basic

/-!
# Native arrays

Construction, element access and bulk copy. Every operation checks its operands before it changes
anything. A copy moves one element at a time, from the end if source and destination share
storage and the destination lies further on, so that no element is overwritten before it is read.
-/

namespace ArrayBridge

/-- Checks that an element operand is of kind `k`. -/
def Kind.expect (k : Kind) (op : Operation) (value : Prim) : Except ArrayFault Unit :=
  if value.kind = k then .ok () else .error (.kindMismatch op k value.kind)

namespace ArrayRef

/-- Checks the size of a new array. -/
def checkSize (kind : Kind) (size : Int64) : Except ArrayFault Nat :=
  if size < 0 then .error (.negativeSize kind size)
  else if maxLength < size.toInt then .error (.sizeTooLarge kind size)
  else .ok size.toInt.toNat

/-- A fresh array of copies of an element, of the zero value if there is none. -/
def new (kind : Kind) (size : Int64) (element : Option Prim) : Action ArrayFault ArrayRef := do
  Action.lift (element.elim (.ok ()) (kind.expect .construct))
  let n ← Action.lift (checkSize kind size)
  Action.change fun s => s.newArray kind (.replicate n (element.getD kind.zero))

/-- Checks an index against the length of the array. -/
def checkIndex (a : ArrayRef) (op : Operation) (index : Int64) (length : Nat) :
    Except ArrayFault Nat :=
  if 0 ≤ index.toInt ∧ index.toInt < length then .ok index.toInt.toNat
  else .error (.indexOutOfBounds op a.kind index length)

/-- The element at an index. -/
def get (a : ArrayRef) (index : Int64) : Action ArrayFault Prim := do
  let i ← Action.lift (a.checkIndex .get index (← Action.view (·.length a)))
  Action.view (·.element a i)

/-- Replaces the element at an index. -/
def set (a : ArrayRef) (index : Int64) (value : Prim) : Action ArrayFault Unit := do
  Action.lift (a.kind.expect .set value)
  let i ← Action.lift (a.checkIndex .set index (← Action.view (·.length a)))
  Action.change fun s => ((), s.write a i value)

/-! ## Bulk copy -/

/-- The places of a copy: where it starts in the source and in the destination, and how many
elements it moves. -/
structure CopyRange where
  source : Nat
  destination : Nat
  count : Nat
deriving DecidableEq, Repr

/-- An offset or a count as a natural number, if it lies between zero and `limit`. -/
def upTo? (limit : Nat) (n : Int64) : Option Nat :=
  if 0 ≤ n.toInt ∧ n.toInt ≤ limit then some n.toInt.toNat else none

/-- The range of a copy between arrays of the given lengths, if it lies within both. Without a
length it extends to the nearer end. -/
def copyRange? (sourceLength destinationLength : Nat) (sourceOffset destinationOffset : Int64)
    (length : Option Int64) : Option CopyRange := do
  let source ← upTo? sourceLength sourceOffset
  let destination ← upTo? destinationLength destinationOffset
  let available := min (sourceLength - source) (destinationLength - destination)
  let count ← match length with
    | none => some available
    | some n => upTo? available n
  return ⟨source, destination, count⟩

/-- The order in which the elements of a range are moved, by their distance from its start. -/
def moveOrder (a destination : ArrayRef) (range : CopyRange) : List Nat :=
  if a.sharesStorageWith destination && range.source < range.destination then
    (List.range range.count).reverse
  else List.range range.count

/-- Moves the elements of a range one after another, each as the word that stores it. -/
def moveElements (a destination : ArrayRef) (range : CopyRange) (s : Store) : Store :=
  (a.moveOrder destination range).foldl
    (fun s i => s.writeWord destination (range.destination + i) (s.word a (range.source + i))) s

/-- Copies elements into an array of the same kind. -/
def copyTo (a destination : ArrayRef) (sourceOffset destinationOffset : Int64)
    (length : Option Int64) : Action ArrayFault Unit := do
  if destination.kind ≠ a.kind then throw (.kindMismatch .copyTo a.kind destination.kind)
  let sourceLength ← Action.view (·.length a)
  let destinationLength ← Action.view (·.length destination)
  match copyRange? sourceLength destinationLength sourceOffset destinationOffset length with
  | none =>
    throw (.invalidCopyRange a.kind sourceOffset destinationOffset length sourceLength
      destinationLength)
  | some range => Action.change fun s => ((), a.moveElements destination range s)

/-- Copies elements as the copying helpers of a wrapper do, where a position that is missing is
zero. -/
def copyFrom (a destination : ArrayRef) (sourcePosition destinationPosition length : Option Int64) :
    Action ArrayFault Unit :=
  a.copyTo destination (sourcePosition.getD 0) (destinationPosition.getD 0) length

end ArrayRef

end ArrayBridge
