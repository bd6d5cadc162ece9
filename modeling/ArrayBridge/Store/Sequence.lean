import ArrayBridge.Store.Array

/-!
# Generic sequences

What generic code sees: a sequence of boxed elements. A sequence is either the view of a native
array, whose storage it shares, or holds its items boxed.

* `Store.itemsOf` is the view of a sequence: its items in order.
* `ArrayRef.ofSequence` copies a sequence into a fresh array, after checking every item.
-/

namespace ArrayBridge

/-- A generic sequence. -/
inductive Sequence where
  /-- A native array seen as a sequence of boxed elements. -/
  | view (array : ArrayRef)
  /-- A sequence that stores its items boxed. -/
  | boxed (ref : BoxedRef)
deriving DecidableEq

/-- The items of a sequence. -/
def Store.itemsOf (s : Store) : Sequence → List Boxed
  | .view a => (s.elements a).map Prim.box
  | .boxed q => (s.items q).toList

/-- The element of kind `k` with the given boxed form, found at an index by an operation. -/
def Kind.unboxAt (k : Kind) (op : Operation) (index : Int64) (value : Boxed) :
    Except ArrayFault Prim :=
  match k.unbox value with
  | some element => .ok element
  | none => .error (.typeMismatch op k index value)

namespace Sequence

/-- The type of a sequence. -/
def descriptor : Sequence → Descriptor
  | view a => .genericView a.kind
  | boxed q => .sequenceOf q.element

/-- Whether a sequence is of the given type. The view of an array also answers for the class of
the array. -/
def isInstanceOf (q : Sequence) (d : Descriptor) : Bool :=
  match q with
  | view a => q.descriptor.conformsTo d || d = .primitiveArray a.kind
  | boxed _ => q.descriptor.conformsTo d

/-- The number of items. -/
def size (q : Sequence) (s : Store) : Nat :=
  match q with
  | view a => s.length a
  | boxed r => (s.items r).size

/-- The item at an index, if the index lies within the sequence. -/
def item? (q : Sequence) (s : Store) (index : Nat) : Option Boxed :=
  match q with
  | view a => (s.slots a)[index]?.map fun w => (a.kind.ofSlot w).box
  | boxed r => (s.items r)[index]?

/-- Checks an index of generic code against the length of a sequence. -/
def checkIndex (index : Int64) (length : Nat) : Except SequenceFault Nat :=
  if 0 ≤ index.toInt ∧ index.toInt < length then .ok index.toInt.toNat
  else .error (.indexOutOfBounds index length)

/-- The largest index of an array, the largest signed 64-bit integer. -/
def maxIndex : Nat := 0x7fffffffffffffff

/-- Replaces the item at an index. In the view of an array the value has to unbox to the array's
kind, and an index beyond the largest signed one counts as that one. In a boxed sequence the value
has to be of the element type, and a fault gives the low bits of the index. -/
def setItem (q : Sequence) (index : Nat) (value : Boxed) : Action SequenceFault Unit :=
  match q with
  | view a => Action.mapError .array do
    let index := Int64.ofNat (min index maxIndex)
    a.set index (← Action.lift (a.kind.unboxAt .set index value))
  | boxed r => do
    -- the value is tested before the index
    if !value.isInstanceOf r.element then throw (.elementType value r.element)
    let length ← Action.view fun s => (s.items r).size
    if length ≤ index then throw (.indexOutOfBounds (Int64.ofNat index) length)
    Action.change fun s => ((), s.writeItem r index value)

end Sequence

/-- The view of a native array. -/
def ArrayRef.toSequence (a : ArrayRef) : Sequence := .view a

namespace ArrayRef

/-- The item at an index of a sequence, unboxed to kind `k`. -/
def unboxItem (k : Kind) (q : Sequence) (s : Store) (index : Nat) : Except ArrayFault Prim :=
  match q.item? s index with
  | none => .error (.indexOutOfBounds .fromGenericView k (Int64.ofNat index) (q.size s))
  | some value => k.unboxAt .fromGenericView (Int64.ofNat index) value

/-- A fresh array of kind `k` that holds the items of a sequence. -/
def ofSequence (k : Kind) (q : Sequence) : Action ArrayFault ArrayRef := do
  let s ← Action.view id
  let elements ← Action.lift ((List.range (q.size s)).mapM (unboxItem k q s))
  Action.change fun s => s.newArray k elements.toArray

end ArrayRef

/-! ## Text -/

namespace Store

/-- The items of a list between brackets. -/
def listText (items : List String) : String := "[" ++ ", ".intercalate items ++ "]"

/-- The elements of an array. -/
def elementsText (s : Store) (a : ArrayRef) : String := listText ((s.elements a).map Prim.text)

/-- An array under the name of its kind, as in `Int([1, 2])`. -/
def arrayText (s : Store) (a : ArrayRef) : String :=
  a.kind.name ++ "(" ++ s.elementsText a ++ ")"

/-- The view of an array. -/
def viewText (s : Store) (a : ArrayRef) : String :=
  "ArrayView \x7b array: " ++ s.elementsText a ++ " \x7d"

/-- A sequence under its type. -/
def sequenceText (s : Store) (q : Sequence) : String :=
  q.descriptor.text ++ " " ++ listText ((s.itemsOf q).map Boxed.taggedText)

end Store

end ArrayBridge
